import PKernel.Library.LinkedList
import PKernel.Paging.VirtualRegions

/-! # The virtual allocator

`virtual_allocator.c`: the node list behind a `valloc_t`, with every pointer
the code follows and rewires. Addresses of new nodes come from the heap, so the
functions that allocate take them as arguments. Each function spells the edit
of the region list that `VirtualRegions` describes.
-/

namespace PKernel

open Library.LinkedList
open Function (update update_of_ne update_self)

/-- A `valloc_t` in memory: the addresses of its two sentinels and the nodes. -/
structure Valloc where
  nodes : Store Valloc.Region
  head : Nat
  tail : Nat

namespace Valloc

/-! ## Memory accesses -/

def readNode (nodes : Store Region) (node : Nat) : Except Fault (Cell Region) :=
  match nodes node with
  | some cell => .ok cell
  | none => .error .badPointer

def writeNode (nodes : Store Region) (node : Nat) (change : Cell Region → Cell Region) :
    Except Fault (Store Region) := do
  let cell ← readNode nodes node
  return update nodes node (some (change cell))

/-- `new_node`, linked in behind `node`. -/
def insertAfter (nodes : Store Region) (node newNode : Nat) (region : Region) :
    Except Fault (Store Region) := do
  let next := (← readNode nodes node).next
  let nodes := update nodes newNode (some ⟨region, next, node⟩)
  let nodes ← writeNode nodes next fun cell => { cell with prev := newNode }
  writeNode nodes node fun cell => { cell with next := newNode }

/-- `new_node`, linked in before `node`. -/
def insertBefore (nodes : Store Region) (node newNode : Nat) (region : Region) :
    Except Fault (Store Region) := do
  let prev := (← readNode nodes node).prev
  let nodes := update nodes newNode (some ⟨region, node, prev⟩)
  let nodes ← writeNode nodes prev fun cell => { cell with next := newNode }
  writeNode nodes node fun cell => { cell with prev := newNode }

/-- `old_node` is taken out between `prev` and `next` and given back to the heap. -/
def unlink (nodes : Store Region) (prev oldNode next : Nat) : Except Fault (Store Region) := do
  let nodes ← writeNode nodes prev fun cell => { cell with next := next }
  let nodes ← writeNode nodes next fun cell => { cell with prev := prev }
  return update nodes oldNode none

/-- The search loop of the three operations: the first node from `node` on that
passes `test`, or `none` at the tail. -/
def findNode (nodes : Store Region) (tail : Nat) (test : Region → Bool) :
    Nat → Nat → Except Fault (Option Nat)
  | 0, _ => .error .nontermination
  | fuel + 1, node =>
      if node = tail then .ok none
      else do
        let cell ← readNode nodes node
        if test cell.value then return some node
        findNode nodes tail test fuel cell.next

def find (fuel : Nat) (valloc : Valloc) (test : Region → Bool) : Except Fault (Option Nat) := do
  let head ← readNode valloc.nodes valloc.head
  findNode valloc.nodes valloc.tail test fuel head.next

end Valloc

open Valloc

/-- `valloc_init`, with `node` from the heap. -/
def vallocInit (valloc : Valloc) (node : Nat) : Except Fault Valloc := do
  let nodes := update valloc.nodes node
    (some ⟨⟨true, 0, regionSize / pageSize⟩, valloc.tail, valloc.head⟩)
  let nodes ← writeNode nodes valloc.head fun cell =>
    { value := { cell.value with isFree := false }, next := node, prev := 0 }
  let nodes ← writeNode nodes valloc.tail fun cell =>
    { value := { cell.value with isFree := false }, next := 0, prev := node }
  return { valloc with nodes }

/-- `valloc_alloc`, with `newNode` from the heap. -/
def vallocAlloc (fuel : Nat) (valloc : Valloc) (size newNode : Nat) : Except Fault (Nat × Valloc) := do
  let sizePages := divUp size pageSize
  match ← find fuel valloc (Region.suits sizePages) with
  | none => throw (.entryError 0x123)
  | some node =>
      let region := (← readNode valloc.nodes node).value
      if sizePages = region.sizePages then
        let nodes ← writeNode valloc.nodes node fun cell =>
          { cell with value := { cell.value with isFree := false } }
        return (region.startAddr, { valloc with nodes })
      else
        let nodes ← insertAfter valloc.nodes node newNode
          ⟨true, u64 (region.startAddr + pageSize * sizePages), region.sizePages - sizePages⟩
        let nodes ← writeNode nodes node fun cell =>
          { cell with value := { cell.value with isFree := false, sizePages } }
        return (region.startAddr, { valloc with nodes })

/-- The part of `node` below `vaddr` becomes a free node of its own. -/
def Valloc.cutBefore (nodes : Store Region) (node vaddr newNode : Nat) :
    Except Fault (Store Region) := do
  let region := (← readNode nodes node).value
  if intptr region.startAddr < intptr vaddr then
    let nodes ← insertBefore nodes node newNode
      ⟨true, region.startAddr, ((intptr vaddr - intptr region.startAddr) / pageSize).toNat⟩
    writeNode nodes node fun cell => { cell with value := { cell.value with startAddr := vaddr } }
  else return nodes

/-- The part of `node` between the end of the request and `last`, where the
node ended, becomes a free node of its own. -/
def Valloc.cutAfter (nodes : Store Region) (node vaddr sizePages : Nat) (last : Int)
    (newNode : Nat) : Except Fault (Store Region) := do
  if reqEnd vaddr sizePages < last then
    let start := (← readNode nodes node).value.startAddr
    insertAfter nodes node newNode
      ⟨true, u64 (start + pageSize * sizePages),
        ((last - reqEnd vaddr sizePages) / pageSize).toNat⟩
  else return nodes

/-- `valloc_reserve`, with the two new nodes from the heap. -/
def vallocReserve (fuel : Nat) (valloc : Valloc) (vaddr size newBefore newAfter : Nat) :
    Except Fault (Nat × Valloc) := do
  if misaligned vaddr then return (0, valloc)
  let sizePages := divUp size pageSize
  match ← find fuel valloc (Region.covers vaddr) with
  | none => throw (.entryError 0x123)
  | some node =>
      let region := (← readNode valloc.nodes node).value
      if !region.isFree then return (0, valloc)
      if region.endInt < reqEnd vaddr sizePages then return (0, valloc)
      let nodes ← cutBefore valloc.nodes node vaddr newBefore
      let nodes ← cutAfter nodes node vaddr sizePages region.endInt newAfter
      let nodes ← writeNode nodes node fun cell =>
        { cell with value := { cell.value with isFree := false, sizePages } }
      return ((← readNode nodes node).value.startAddr, { valloc with nodes })

/-- The node behind `node` is merged into it when it is free. -/
def Valloc.mergeNext (nodes : Store Region) (tail node : Nat) : Except Fault (Store Region) := do
  let next := (← readNode nodes node).next
  if next = tail then return nodes
  let nextCell ← readNode nodes next
  if !nextCell.value.isFree then return nodes
  let nodes ← writeNode nodes node fun cell =>
    { cell with value :=
      { cell.value with sizePages := u64 (cell.value.sizePages + nextCell.value.sizePages) } }
  unlink nodes node next nextCell.next

/-- `node` is merged into the node before it when that one is free. The node
that remains is returned too. -/
def Valloc.mergePrev (nodes : Store Region) (head node : Nat) :
    Except Fault (Store Region × Nat) := do
  let cell ← readNode nodes node
  if cell.prev = head then return (nodes, node)
  let prevCell ← readNode nodes cell.prev
  if !prevCell.value.isFree then return (nodes, node)
  let nodes ← writeNode nodes cell.prev fun prevCell =>
    { prevCell with value :=
      { prevCell.value with sizePages := u64 (prevCell.value.sizePages + cell.value.sizePages) } }
  return (← unlink nodes cell.prev node cell.next, cell.prev)

/-- `valloc_release`. -/
def vallocRelease (fuel : Nat) (valloc : Valloc) (vaddr : Nat) : Except Fault (Bool × Valloc) := do
  match ← find fuel valloc fun region => region.startAddr == vaddr with
  | none => return (false, valloc)
  | some node =>
      let nodes ← mergeNext valloc.nodes valloc.tail node
      let (nodes, node) ← mergePrev nodes valloc.head node
      let nodes ← writeNode nodes node fun cell =>
        { cell with value := { cell.value with isFree := true } }
      return (true, { valloc with nodes })

namespace Valloc

variable {nodes : Store Region} {head tail node newNode : Nat} {region added : Region}
  {front back regions : List Region} {places : List Nat} {test : Region → Bool}

/-! ## The node list around one node -/

/-- `node` holds `region`, between nodes that hold `front` and `back`. -/
def Focus (nodes : Store Region) (head tail : Nat) (front : List Region) (node : Nat)
    (region : Region) (back : List Region) : Prop :=
  ∃ before after, before.length = front.length ∧
    Represents nodes head tail (before ++ node :: after) (front ++ region :: back)

namespace Focus

theorem represents (hfocus : Focus nodes head tail front node region back) :
    ∃ places, Represents nodes head tail places (front ++ region :: back) := by
  obtain ⟨before, after, _, hrep⟩ := hfocus
  exact ⟨_, hrep⟩

theorem exists_cell (hfocus : Focus nodes head tail front node region back) :
    ∃ cell, nodes node = some cell ∧ cell.value = region := by
  obtain ⟨before, after, hlength, hrep⟩ := hfocus
  obtain ⟨_, hvalues⟩ := hrep.values_split hlength
  exact Option.map_eq_some_iff.mp (List.cons.inj hvalues).1

theorem readNode_value (hfocus : Focus nodes head tail front node region back) :
    ∃ cell, readNode nodes node = .ok cell ∧ cell.value = region := by
  obtain ⟨cell, hcell, hvalue⟩ := hfocus.exists_cell
  exact ⟨cell, by rw [readNode, hcell], hvalue⟩

/-- Assign to data fields of the node. -/
theorem writeNode_value (hfocus : Focus nodes head tail front node region back)
    (change : Region → Region) :
    ∃ changed, writeNode nodes node (fun cell => { cell with value := change cell.value }) =
        .ok changed ∧ Focus changed head tail front node (change region) back ∧
      changed node = (nodes node).map (fun cell => { cell with value := change cell.value }) ∧
      ∀ other, other ≠ node → changed other = nodes other := by
  obtain ⟨cell, hcell, rfl⟩ := hfocus.exists_cell
  obtain ⟨before, after, hlength, hrep⟩ := hfocus
  refine ⟨update nodes node (some { cell with value := change cell.value }), ?_, ?_, ?_, ?_⟩
  · simp [writeNode, readNode, hcell, ok_bind, pure_eq_ok]
  · refine ⟨before, after, hlength, ?_⟩
    refine hrep.setValue hlength hcell (update_self ..) ?_
    intro kept hkept
    exact update_of_ne hkept _ _
  · rw [hcell, update_self, Option.map_some]
  · intro other hother
    exact update_of_ne hother _ _

/-- The pointers of the node reach its neighbours, and these point back. -/
theorem neighbours (hfocus : Focus nodes head tail front node region back) :
    ∃ before after prev next cell prevCell nextCell, before.length = front.length ∧
      Represents nodes head tail (before ++ node :: after) (front ++ region :: back) ∧
      (head :: before).getLast? = some prev ∧ (after ++ [tail]).head? = some next ∧
      nodes node = some cell ∧ cell.value = region ∧ cell.prev = prev ∧ cell.next = next ∧
      nodes prev = some prevCell ∧ prevCell.next = node ∧
      nodes next = some nextCell ∧ nextCell.prev = node ∧
      prev ≠ node ∧ next ≠ node ∧ prev ≠ next := by
  obtain ⟨cell, hcell, hvalue⟩ := hfocus.exists_cell
  obtain ⟨before, after, hlength, hrep⟩ := hfocus
  obtain ⟨prev, hprev⟩ : ∃ prev, (head :: before).getLast? = some prev :=
    ⟨_, List.getLast?_eq_some_getLast (List.cons_ne_nil _ _)⟩
  obtain ⟨next, rest, hnext⟩ := List.exists_cons_of_ne_nil
    (List.append_ne_nil_of_right_ne_nil after (List.cons_ne_nil tail []))
  have hnextHead : (after ++ [tail]).head? = some next := by rw [hnext]; rfl
  obtain ⟨hforward, hback⟩ := hrep.joined_after next hnextHead
  obtain ⟨hforward', hback'⟩ := hrep.joined_before prev hprev
  obtain ⟨nextCell, hnextCell, hnextPrev⟩ := Option.map_eq_some_iff.mp hback
  obtain ⟨prevCell, hprevCell, hprevNext⟩ := Option.map_eq_some_iff.mp hforward'
  have hprevMem : prev ∈ head :: before := List.mem_of_getLast? hprev
  have hnodup := hrep.nodup
  rw [List.append_assoc, List.cons_append, ← List.cons_append, List.nodup_append, hnext] at hnodup
  obtain ⟨_, hlater, hcross⟩ := hnodup
  refine ⟨before, after, prev, next, cell, prevCell, nextCell, hlength, hrep, hprev, hnextHead,
    hcell, hvalue, by simpa [hcell] using hback', by simpa [hcell] using hforward, hprevCell,
    hprevNext, hnextCell, hnextPrev, ?_, ?_, ?_⟩
  · exact hcross prev hprevMem node List.mem_cons_self
  · rintro rfl
    exact (List.nodup_cons.mp hlater).1 List.mem_cons_self
  · exact hcross prev hprevMem next (List.mem_cons_of_mem _ List.mem_cons_self)

theorem insertAfter_spec (hfocus : Focus nodes head tail front node region back)
    (hfresh : nodes newNode = none) (added : Region) :
    ∃ changed, insertAfter nodes node newNode added = .ok changed ∧
      Focus changed head tail front node region (added :: back) := by
  obtain ⟨before, after, prev, next, cell, prevCell, nextCell, hlength, hrep, -, hnext, hcell, -,
    -, rfl, -, -, hnextCell, -, -, hne, -⟩ := hfocus.neighbours
  have hneNode : node ≠ newNode := by
    rintro rfl
    simp [hcell] at hfresh
  have hneNext : cell.next ≠ newNode := by
    intro heq
    simp [heq, hfresh] at hnextCell
  refine ⟨update (update (update nodes newNode
    (some ⟨added, cell.next, node⟩)) cell.next (some { nextCell with prev := newNode })) node
    (some { cell with next := newNode }), ?_, before, newNode :: after, hlength, ?_⟩
  · simp [insertAfter, writeNode, readNode, ok_bind, pure_eq_ok, hcell,
      hnextCell, hneNode, hneNext, hne.symm]
  · rw [List.append_cons before, List.append_cons front] at hrep ⊢
    refine hrep.insert node cell.next (by simp [hlength]) ?_ hnext ?_ ?_ ?_ ?_ ?_
    · exact List.getLast?_concat (l := head :: before)
    · intro hmem
      have := hrep.isSome hmem
      simp [hfresh] at this
    · simp [update_of_ne, hneNode.symm, hneNext.symm]
    · simp [hcell]
    · simp [update_of_ne, hne, hnextCell]
    · intro kept hkeptNew hkeptNode hkeptNext
      simp [update_of_ne, hkeptNew, hkeptNode, hkeptNext]

theorem insertBefore_spec (hfocus : Focus nodes head tail front node region back)
    (hfresh : nodes newNode = none) (added : Region) :
    ∃ changed, insertBefore nodes node newNode added = .ok changed ∧
      Focus changed head tail (front ++ [added]) node region back ∧
      ∀ other, other ≠ newNode → nodes other = none → changed other = none := by
  obtain ⟨before, after, prev, next, cell, prevCell, nextCell, hlength, hrep, hprev, -, hcell, -,
    rfl, -, hprevCell, -, -, -, hne, -, -⟩ := hfocus.neighbours
  have hneNode : node ≠ newNode := by
    rintro rfl
    simp [hcell] at hfresh
  have hnePrev : cell.prev ≠ newNode := by
    intro heq
    simp [heq, hfresh] at hprevCell
  refine ⟨update (update (update nodes newNode
    (some ⟨added, node, cell.prev⟩)) cell.prev (some { prevCell with next := newNode })) node
    (some { cell with prev := newNode }), ?_, ⟨before ++ [newNode], after, by simp [hlength], ?_⟩,
    ?_⟩
  · simp [insertBefore, writeNode, readNode, ok_bind, pure_eq_ok, hcell,
      hprevCell, hneNode, hnePrev, hne.symm]
  · rw [List.append_assoc, List.append_assoc, List.singleton_append, List.singleton_append]
    refine hrep.insert cell.prev node hlength hprev (by simp) ?_ ?_ ?_ ?_ ?_
    · intro hmem
      have := hrep.isSome hmem
      simp [hfresh] at this
    · simp [update_of_ne, hneNode.symm, hnePrev.symm]
    · simp [update_of_ne, hne, hprevCell]
    · simp [hcell]
    · intro kept hkeptNew hkeptPrev hkeptNode
      simp [update_of_ne, hkeptNew, hkeptPrev, hkeptNode]
  · intro other hother hnone
    have hotherNode : other ≠ node := by
      rintro rfl
      simp [hcell] at hnone
    have hotherPrev : other ≠ cell.prev := by
      rintro rfl
      simp [hprevCell] at hnone
    simp [update_of_ne, hother, hotherNode, hotherPrev, hnone]

/-- Step from a node to the next one. -/
theorem forward (hfocus : Focus nodes head tail front node region (added :: back)) :
    ∃ cell, nodes node = some cell ∧ cell.value = region ∧ cell.next ≠ tail ∧
      Focus nodes head tail (front ++ [region]) cell.next added back := by
  obtain ⟨before, after, -, next, cell, -, -, hlength, hrep, -, hnext, hcell, hvalue,
    -, rfl, -⟩ := hfocus.neighbours
  have hafter : after.length = (added :: back).length := by
    have := hrep.length_eq
    simp only [List.length_append, List.length_cons] at this ⊢
    omega
  cases after with
  | nil => simp at hafter
  | cons next after =>
      obtain rfl : next = cell.next := by simpa using hnext
      refine ⟨cell, hcell, hvalue, ?_, before ++ [node], after, by simp [hlength], by simpa using hrep⟩
      have hnodup := hrep.nodup
      simp only [List.nodup_cons, List.nodup_append, List.cons_append, List.append_assoc] at hnodup
      intro heq
      simp [heq] at hnodup

/-- Step back to the node before. -/
theorem backward (hfocus : Focus nodes head tail (front ++ [added]) node region back) :
    ∃ cell, nodes node = some cell ∧ cell.value = region ∧ cell.prev ≠ head ∧
      Focus nodes head tail front cell.prev added (region :: back) := by
  obtain ⟨before, after, prev, -, cell, -, -, hlength, hrep, hprev, -, hcell, hvalue,
    rfl, -⟩ := hfocus.neighbours
  rcases List.eq_nil_or_concat' before with rfl | ⟨before, prev, rfl⟩
  · simp at hlength
  · obtain rfl : prev = cell.prev := by
      rw [← List.cons_append, List.getLast?_concat] at hprev
      exact Option.some.inj hprev
    refine ⟨cell, hcell, hvalue, ?_, before, node :: after, by simpa using hlength,
      by simpa using hrep⟩
    have hnodup := hrep.nodup
    intro heq
    simp [heq] at hnodup

/-- Take out the node behind this one. -/
theorem unlink_spec (hfocus : Focus nodes head tail front node region (added :: back))
    {cell nextCell : Cell Region} (hcell : nodes node = some cell)
    (hnextCell : nodes cell.next = some nextCell) :
    ∃ changed, unlink nodes node cell.next nextCell.next = .ok changed ∧
      Focus changed head tail front node region back := by
  have hback : nextCell.prev = node := by
    obtain ⟨-, -, -, next, cell', -, nextCell', -, -, -, -, hcell', -, -, rfl, -, -, hnext', hprev,
      -⟩ := hfocus.neighbours
    obtain rfl : cell' = cell := Option.some.inj (hcell'.symm.trans hcell)
    obtain rfl : nextCell' = nextCell := Option.some.inj (hnext'.symm.trans hnextCell)
    exact hprev
  obtain ⟨cell', hcell', -, -, hforward⟩ := hfocus.forward
  obtain rfl : cell' = cell := Option.some.inj (hcell'.symm.trans hcell)
  obtain ⟨before, after, prev, last, found, prevCell, lastCell, hlength, hrep, hprev, hlast,
    hfound, -, rfl, rfl, hprevCell, -, hlastCell, -, hnePrev, hneLast, hnePrevLast⟩ :=
    hforward.neighbours
  obtain rfl : found = nextCell := Option.some.inj (hfound.symm.trans hnextCell)
  rw [hback] at hprev hnePrev hnePrevLast
  refine ⟨update (update (update nodes node
    (some { cell' with next := found.next })) found.next (some { lastCell with prev := node }))
    cell'.next none, ?_, ?_⟩
  · simp [unlink, writeNode, readNode, ok_bind, pure_eq_ok, hcell, hlastCell,
      hnePrevLast.symm]
  · rcases List.eq_nil_or_concat' before with rfl | ⟨before, prev, rfl⟩
    · simp at hlength
    rw [← List.cons_append, List.getLast?_concat] at hprev
    obtain rfl : prev = node := Option.some.inj hprev
    refine ⟨before, after, by simpa using hlength, ?_⟩
    rw [List.append_cons before, List.append_cons front]
    refine hrep.remove prev found.next hlength ?_ hlast ?_ ?_ ?_
    · rw [← List.cons_append, List.getLast?_concat]
    · simp [update_of_ne, hnePrev, hnePrevLast, hcell]
    · simp [update_of_ne, hneLast, hlastCell]
    · intro kept hkept hkeptLeft hkeptRight
      simp [update_of_ne, hkept, hkeptLeft, hkeptRight]

theorem mergeNext_spec (hfocus : Focus nodes head tail front node region back) :
    ∃ changed, mergeNext nodes tail node = .ok changed ∧
      Focus changed head tail front node (joinNext region back).1 (joinNext region back).2 := by
  cases back with
  | nil =>
      obtain ⟨before, after, -, next, cell, -, -, hlength, hrep, -, hnext, hcell, -, -, rfl, -⟩ :=
        hfocus.neighbours
      obtain rfl : after = [] := by
        have := hrep.length_eq
        simp only [List.length_append, List.length_cons, List.length_nil] at this
        exact List.length_eq_zero_iff.mp (by omega)
      refine ⟨nodes, ?_, hfocus⟩
      obtain rfl : tail = cell.next := by simpa using hnext
      simp [mergeNext, readNode, hcell, ok_bind, pure_eq_ok]
  | cons added back =>
      obtain ⟨cell, hcell, rfl, htail, hforward⟩ := hfocus.forward
      obtain ⟨nextCell, hnextCell, rfl⟩ := hforward.exists_cell
      by_cases hfree : nextCell.value.isFree = true
      · obtain ⟨written, hwrite, hwritten, hnode, hothers⟩ := hfocus.writeNode_value fun region =>
          { region with sizePages := u64 (region.sizePages + nextCell.value.sizePages) }
        have hne : cell.next ≠ node := by
          obtain ⟨-, -, -, next, cell', -, -, -, -, -, -, hcell', -, -, rfl, -, -, -, -, -, hne, -⟩ :=
            hfocus.neighbours
          obtain rfl : cell' = cell := Option.some.inj (hcell'.symm.trans hcell)
          exact hne
        rw [hcell, Option.map_some] at hnode
        obtain ⟨changed, hunlink, hchanged⟩ := hwritten.unlink_spec hnode
          ((hothers cell.next hne).trans hnextCell)
        refine ⟨changed, ?_, by simpa [joinNext, hfree] using hchanged⟩
        simp only [mergeNext, readNode, hcell, ok_bind, if_neg htail, hnextCell, hfree,
          Bool.not_true, Bool.false_eq_true, ↓reduceIte, hwrite]
        exact hunlink
      · refine ⟨nodes, ?_, by simpa [joinNext, hfree] using hfocus⟩
        simp [mergeNext, readNode, hcell, ok_bind, htail, hnextCell, hfree, pure_eq_ok]

theorem mergePrev_spec (hfocus : Focus nodes head tail front node region back) :
    ∃ changed remaining, mergePrev nodes head node = .ok (changed, remaining) ∧
      Focus changed head tail (joinPrev front region).1 remaining (joinPrev front region).2 back := by
  rcases List.eq_nil_or_concat' front with rfl | ⟨front, prevRegion, rfl⟩
  · obtain ⟨before, after, prev, -, cell, -, -, hlength, hrep, hprev, -, hcell, -, rfl, -⟩ :=
      hfocus.neighbours
    obtain rfl : before = [] := List.length_eq_zero_iff.mp hlength
    refine ⟨nodes, node, ?_, by simpa [joinPrev] using hfocus⟩
    obtain rfl : head = cell.prev := by simpa using hprev
    simp [mergePrev, readNode, hcell, ok_bind, pure_eq_ok]
  · obtain ⟨cell, hcell, rfl, hhead, hbackward⟩ := hfocus.backward
    obtain ⟨prevCell, hprevCell, rfl⟩ := hbackward.exists_cell
    by_cases hfree : prevCell.value.isFree = true
    · obtain ⟨written, hwrite, hwritten, hprev, hothers⟩ := hbackward.writeNode_value fun region =>
        { region with sizePages := u64 (region.sizePages + cell.value.sizePages) }
      obtain ⟨-, -, prev, -, cell', prevCell', -, -, -, -, -, hcell', -, rfl, -, hprevCell', hnext,
        -, -, hne, -, -⟩ := hfocus.neighbours
      obtain rfl : cell' = cell := Option.some.inj (hcell'.symm.trans hcell)
      obtain rfl : prevCell' = prevCell := Option.some.inj (hprevCell'.symm.trans hprevCell)
      rw [hprevCell, Option.map_some] at hprev
      obtain ⟨changed, hunlink, hchanged⟩ := hwritten.unlink_spec hprev
        (show written prevCell'.next = some cell' by rw [hnext, hothers node hne.symm, hcell])
      refine ⟨changed, cell'.prev, ?_, by simpa [joinPrev, hfree] using hchanged⟩
      simp only [hnext] at hunlink
      simp only [mergePrev, readNode, hcell, ok_bind, if_neg hhead, hprevCell, hfree,
        Bool.not_true, Bool.false_eq_true, ↓reduceIte, hwrite, hunlink, pure_eq_ok]
    · refine ⟨nodes, node, ?_, by simpa [joinPrev, hfree] using hfocus⟩
      simp [mergePrev, readNode, hcell, ok_bind, hhead, hprevCell, hfree, pure_eq_ok]

end Focus

/-! ## The search loop -/

/-- The loop passes over nodes that fail the test. -/
theorem findNode_skip {walked rest : List Nat} {fuel first : Nat}
    (hchain : (walked ++ node :: rest).IsChain (Joined nodes)) (htail : tail ∉ walked)
    (hskip : ∀ place ∈ walked, ∀ cell, nodes place = some cell → test cell.value = false)
    (hfirst : (walked ++ [node]).head? = some first) :
    findNode nodes tail test (fuel + walked.length) first = findNode nodes tail test fuel node := by
  induction walked generalizing first with
  | nil =>
      obtain rfl : node = first := by simpa using hfirst
      rfl
  | cons place walked ih =>
      obtain rfl : place = first := by simpa using hfirst
      obtain ⟨second, later, hsecond⟩ := List.exists_cons_of_ne_nil
        (List.append_ne_nil_of_right_ne_nil walked (List.cons_ne_nil node []))
      have hnext : (nodes place).map Cell.next = some second := by
        rw [List.cons_append, List.append_cons, hsecond] at hchain
        exact (List.isChain_cons_cons.mp hchain).1.1
      obtain ⟨cell, hcell, rfl⟩ := Option.map_eq_some_iff.mp hnext
      have hne : place ≠ tail := by
        rintro rfl
        simp at htail
      have hfails := hskip place List.mem_cons_self cell hcell
      have hrest := @ih cell.next (List.isChain_cons.mp hchain).2
        (fun hmem => htail (List.mem_cons_of_mem _ hmem))
        (fun place hplace => hskip place (List.mem_cons_of_mem _ hplace)) (by rw [hsecond]; rfl)
      rw [List.length_cons, ← Nat.add_assoc, ← hrest]
      simp [findNode, hne, readNode, hcell, hfails, ok_bind]

variable {valloc : Valloc} {fuel : Nat}

/-- The places before a cut of the values hold values before that cut. -/
theorem value_mem {before after : List Nat}
    (hrep : Represents nodes head tail (before ++ after) (front ++ back))
    (hlength : before.length = front.length) {place : Nat} (hplace : place ∈ before)
    {cell : Cell Region} (hcell : nodes place = some cell) : cell.value ∈ front := by
  obtain ⟨hvalues, _⟩ := hrep.values_split hlength
  have hmem : some cell.value ∈ before.map fun place => (nodes place).map Cell.value :=
    List.mem_map.mpr ⟨place, hplace, by rw [hcell]; rfl⟩
  rw [hvalues] at hmem
  simpa using hmem

/-- The loop finds the node of the first region that passes the test. -/
theorem find_spec (hrep : Represents valloc.nodes valloc.head valloc.tail places regions)
    (hbound : regions.length < fuel) (test : Region → Bool) :
    match splitFirst test regions with
    | none => find fuel valloc test = .ok none
    | some (front, region, back) => ∃ node, find fuel valloc test = .ok (some node) ∧
        Focus valloc.nodes valloc.head valloc.tail front node region back := by
  obtain ⟨first, hfirst⟩ : ∃ first, (places ++ [valloc.tail]).head? = some first := by
    cases places <;> simp
  obtain ⟨headCell, hhead, rfl⟩ := Option.map_eq_some_iff.mp (hrep.next_head.trans hfirst)
  have hchain := (List.isChain_cons.mp hrep.joined).2
  have htail : valloc.tail ∉ places := by
    have := (List.nodup_cons.mp hrep.nodup).2
    rw [List.nodup_append] at this
    intro hmem
    exact this.2.2 _ hmem _ (List.mem_singleton_self _) rfl
  split
  · next hnone =>
      have hskip : ∀ place ∈ places, ∀ cell, valloc.nodes place = some cell →
          test cell.value = false := by
        intro place hplace cell hcell
        apply splitFirst_eq_none.mp hnone
        have hwhole : Represents valloc.nodes valloc.head valloc.tail (places ++ [])
            (regions ++ []) := by simpa using hrep
        exact value_mem hwhole hrep.length_eq hplace hcell
      obtain ⟨rest, rfl⟩ : ∃ rest, fuel = rest + 1 + places.length :=
        ⟨fuel - 1 - places.length, by have := hrep.length_eq; omega⟩
      simp only [find, readNode, hhead, ok_bind,
        findNode_skip hchain htail hskip hfirst]
      simp [findNode]
  · next front region back hsplit =>
      obtain ⟨rfl, htest, hfails⟩ := splitFirst_eq_some.mp hsplit
      obtain ⟨before, node, after, cell, rfl, hlength, hcell, rfl⟩ := hrep.exists_split
      refine ⟨node, ?_, before, after, hlength, hrep⟩
      have hskip : ∀ place ∈ before, ∀ cell, valloc.nodes place = some cell →
          test cell.value = false := by
        intro place hplace placeCell hplaceCell
        exact hfails _ (value_mem hrep hlength hplace hplaceCell)
      have hne : node ≠ valloc.tail := by
        rintro rfl
        simp at htail
      obtain ⟨rest, rfl⟩ : ∃ rest, fuel = rest + 1 + before.length := by
        simp only [List.length_append, List.length_cons] at hbound
        exact ⟨fuel - 1 - before.length, by omega⟩
      rw [List.append_assoc, List.cons_append] at hchain
      simp only [find, readNode, hhead, ok_bind,
        findNode_skip hchain (fun hmem => htail (List.mem_append_left _ hmem)) hskip
          (by cases before <;> simpa using hfirst)]
      simp [findNode, hne, readNode, hcell, htest, ok_bind, pure_eq_ok]

/-! ## Refinement -/

variable {newBefore newAfter : Nat}

/-- What an operation on the nodes has to do, given what it does to the list. -/
inductive Refines {Result : Type} (valloc : Valloc) :
    Except Fault (Result × Valloc) → Except Fault (Result × List Region) → Prop
  | error (fault : Fault) : Refines valloc (.error fault) (.error fault)
  | ok {result : Result} {nodes : Store Region} {places : List Nat} {regions : List Region}
      (hrep : Represents nodes valloc.head valloc.tail places regions) :
      Refines valloc (.ok (result, { valloc with nodes })) (.ok (result, regions))

theorem vallocAlloc_refines
    (hrep : Represents valloc.nodes valloc.head valloc.tail places regions)
    (hbound : regions.length < fuel) (hfresh : valloc.nodes newNode = none) (size : Nat) :
    Refines valloc (vallocAlloc fuel valloc size newNode) (alloc regions size) := by
  have hfind := find_spec hrep hbound (Region.suits (divUp size pageSize))
  simp only [alloc]
  cases hsplit : splitFirst (Region.suits (divUp size pageSize)) regions with
  | none =>
      simp only [hsplit] at hfind
      simp only [vallocAlloc, hfind, ok_bind]
      exact .error _
  | some found =>
      obtain ⟨front, region, back⟩ := found
      simp only [hsplit] at hfind
      obtain ⟨node, hfound, hfocus⟩ := hfind
      obtain ⟨cell, hread, rfl⟩ := hfocus.readNode_value
      by_cases hexact : divUp size pageSize = cell.value.sizePages
      · obtain ⟨nodes, hwrite, hwritten, -⟩ :=
          hfocus.writeNode_value fun region => { region with isFree := false }
        obtain ⟨places, hplaces⟩ := hwritten.represents
        simp only [vallocAlloc, hfound, hread, ok_bind, if_pos hexact, hwrite]
        exact .ok hplaces
      · obtain ⟨linked, hinsert, hlinked⟩ := hfocus.insertAfter_spec hfresh
          ⟨true, u64 (cell.value.startAddr + pageSize * divUp size pageSize),
            cell.value.sizePages - divUp size pageSize⟩
        obtain ⟨nodes, hwrite, hwritten, -⟩ := hlinked.writeNode_value fun region =>
          { region with isFree := false, sizePages := divUp size pageSize }
        obtain ⟨places, hplaces⟩ := hwritten.represents
        simp only [vallocAlloc, hfound, hread, ok_bind, if_neg hexact, hinsert, hwrite]
        exact .ok hplaces

/-- The two cuts of `valloc_reserve` and its last assignments. -/
theorem Focus.carve_spec (hfocus : Focus nodes head tail front node region back)
    (hnewBefore : nodes newBefore = none) (hnewAfter : nodes newAfter = none)
    (hne : newBefore ≠ newAfter) (vaddr sizePages : Nat) :
    ∃ cut cutTwice written places cell,
      cutBefore nodes node vaddr newBefore = .ok cut ∧
      cutAfter cut node vaddr sizePages region.endInt newAfter = .ok cutTwice ∧
      writeNode cutTwice node (fun cell =>
        { cell with value := { cell.value with isFree := false, sizePages } }) = .ok written ∧
      readNode written node = .ok cell ∧
      cell.value.startAddr =
        (if intptr region.startAddr < intptr vaddr then vaddr else region.startAddr) ∧
      Represents written head tail places (front ++ carve region vaddr sizePages ++ back) := by
  obtain ⟨start, hstart⟩ : ∃ start, start =
      if intptr region.startAddr < intptr vaddr then vaddr else region.startAddr := ⟨_, rfl⟩
  obtain ⟨lower, hlower⟩ : ∃ lower : List Region, lower =
      if intptr region.startAddr < intptr vaddr then
        [⟨true, region.startAddr, ((intptr vaddr - intptr region.startAddr) / pageSize).toNat⟩]
      else [] := ⟨_, rfl⟩
  obtain ⟨upper, hupper⟩ : ∃ upper : List Region, upper =
      if reqEnd vaddr sizePages < region.endInt then
        [⟨true, u64 (start + pageSize * sizePages),
          ((region.endInt - reqEnd vaddr sizePages) / pageSize).toNat⟩]
      else [] := ⟨_, rfl⟩
  obtain ⟨cut, hcut, hcutFocus, hcutFresh⟩ : ∃ cut,
      cutBefore nodes node vaddr newBefore = .ok cut ∧
      Focus cut head tail (front ++ lower) node { region with startAddr := start } back ∧
      cut newAfter = none := by
    obtain ⟨cell, hread, rfl⟩ := hfocus.readNode_value
    by_cases hbelow : intptr cell.value.startAddr < intptr vaddr
    · rw [if_pos hbelow] at hstart hlower
      rw [hstart, hlower]
      obtain ⟨linked, hinsert, hlinked, hfresh⟩ := hfocus.insertBefore_spec hnewBefore
        ⟨true, cell.value.startAddr,
          ((intptr vaddr - intptr cell.value.startAddr) / pageSize).toNat⟩
      obtain ⟨cut, hwrite, hwritten, -, hothers⟩ := hlinked.writeNode_value fun region =>
        { region with startAddr := vaddr }
      obtain ⟨nodeCell, hnodeCell, -⟩ := hlinked.exists_cell
      refine ⟨cut, ?_, hwritten, ?_⟩
      · simp only [cutBefore, hread, ok_bind, if_pos hbelow, hinsert]
        exact hwrite
      · have hnone := hfresh newAfter hne.symm hnewAfter
        rw [hothers, hnone]
        rintro rfl
        simp [hnodeCell] at hnone
    · rw [if_neg hbelow] at hstart hlower
      rw [hstart, hlower]
      refine ⟨nodes, ?_, by simpa using hfocus, hnewAfter⟩
      simp [cutBefore, hread, ok_bind, hbelow, pure_eq_ok]
  obtain ⟨cutTwice, hcutTwice, hcutTwiceFocus⟩ : ∃ cutTwice,
      cutAfter cut node vaddr sizePages region.endInt newAfter = .ok cutTwice ∧
      Focus cutTwice head tail (front ++ lower) node { region with startAddr := start }
        (upper ++ back) := by
    obtain ⟨cell, hread, hvalue⟩ := hcutFocus.readNode_value
    by_cases habove : reqEnd vaddr sizePages < region.endInt
    · rw [if_pos habove] at hupper
      subst hupper
      obtain ⟨linked, hinsert, hlinked⟩ := hcutFocus.insertAfter_spec hcutFresh
        ⟨true, u64 (start + pageSize * sizePages),
          ((region.endInt - reqEnd vaddr sizePages) / pageSize).toNat⟩
      refine ⟨linked, ?_, hlinked⟩
      simp only [cutAfter, if_pos habove, hread, ok_bind, hvalue]
      exact hinsert
    · rw [if_neg habove] at hupper
      subst hupper
      refine ⟨cut, ?_, hcutFocus⟩
      simp [cutAfter, habove, pure_eq_ok]
  obtain ⟨written, hwrite, hwritten, -⟩ := hcutTwiceFocus.writeNode_value fun region =>
    { region with isFree := false, sizePages }
  obtain ⟨cell, hread, hvalue⟩ := hwritten.readNode_value
  obtain ⟨places, hplaces⟩ := hwritten.represents
  refine ⟨cut, cutTwice, written, places, cell, hcut, hcutTwice, hwrite, hread, ?_, ?_⟩
  · rw [hvalue, ← hstart]
  · have hcarve : carve region vaddr sizePages = lower ++ ⟨false, start, sizePages⟩ :: upper := by
      rw [hupper, hlower, hstart]
      rfl
    rw [hcarve]
    simpa only [List.append_assoc, List.cons_append] using hplaces

theorem vallocReserve_refines
    (hrep : Represents valloc.nodes valloc.head valloc.tail places regions)
    (hbound : regions.length < fuel) (hnewBefore : valloc.nodes newBefore = none)
    (hnewAfter : valloc.nodes newAfter = none) (hne : newBefore ≠ newAfter) (vaddr size : Nat) :
    Refines valloc (vallocReserve fuel valloc vaddr size newBefore newAfter)
      (reserve regions vaddr size) := by
  have hfind := find_spec hrep hbound (Region.covers vaddr)
  by_cases haligned : misaligned vaddr = true
  · simp only [reserve, vallocReserve, if_pos haligned]
    exact .ok hrep
  simp only [reserve, vallocReserve, if_neg haligned]
  cases hsplit : splitFirst (Region.covers vaddr) regions with
  | none =>
      simp only [hsplit] at hfind
      simp only [hfind, ok_bind]
      exact .error _
  | some found =>
      obtain ⟨front, region, back⟩ := found
      simp only [hsplit] at hfind
      obtain ⟨node, hfound, hfocus⟩ := hfind
      obtain ⟨cell, hread, rfl⟩ := hfocus.readNode_value
      simp only [hfound, hread, ok_bind]
      by_cases hused : (!cell.value.isFree) = true
      · simp only [if_pos hused]
        exact .ok hrep
      by_cases hlong : cell.value.endInt < reqEnd vaddr (divUp size pageSize)
      · simp only [if_neg hused, if_pos hlong]
        exact .ok hrep
      obtain ⟨cut, cutTwice, written, places, last, hcut, hcutTwice, hwrite, hlast, hstart,
        hplaces⟩ := hfocus.carve_spec hnewBefore hnewAfter hne vaddr (divUp size pageSize)
      simp only [if_neg hused, if_neg hlong, hcut, hcutTwice, hwrite, hlast, ok_bind, pure_eq_ok,
        ← hstart]
      exact .ok hplaces

theorem vallocRelease_refines
    (hrep : Represents valloc.nodes valloc.head valloc.tail places regions)
    (hbound : regions.length < fuel) (vaddr : Nat) :
    Refines valloc (vallocRelease fuel valloc vaddr) (.ok (release regions vaddr)) := by
  have hfind := find_spec hrep hbound fun region => region.startAddr == vaddr
  simp only [release, vallocRelease]
  cases hsplit : splitFirst (fun region => region.startAddr == vaddr) regions with
  | none =>
      simp only [hsplit] at hfind
      simp only [hfind, ok_bind]
      exact .ok hrep
  | some found =>
      obtain ⟨front, region, back⟩ := found
      simp only [hsplit] at hfind
      obtain ⟨node, hfound, hfocus⟩ := hfind
      obtain ⟨merged, hmerge, hmerged⟩ := hfocus.mergeNext_spec
      obtain ⟨joined, remaining, hjoin, hjoined⟩ := hmerged.mergePrev_spec
      obtain ⟨nodes, hwrite, hwritten, -⟩ :=
        hjoined.writeNode_value fun region => { region with isFree := true }
      obtain ⟨places, hplaces⟩ := hwritten.represents
      simp only [hfound, ok_bind, hmerge, hjoin, hwrite]
      exact .ok hplaces

end Valloc

end PKernel
