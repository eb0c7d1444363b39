import Mathlib.Data.List.Chain
import Mathlib.Data.List.Nodup

/-! # Doubly linked lists between two sentinels

A store maps addresses to cells that hold a value and the addresses of their
neighbours. A store represents a list of values when, from one sentinel to the
other, consecutive cells point at each other and hold the values in order.
Linking a cell in and taking one out touch only the cell and its two
neighbours.
-/

namespace Library.LinkedList

/-- The stretch `first, second` of a chain meets its surroundings only at its
two ends. -/
theorem isChain_splice {α : Type*} {R : α → α → Prop} {before after : List α} {first second : α} :
    (before ++ first :: second :: after).IsChain R ↔
      before.IsChain R ∧ (∀ item ∈ before.getLast?, R item first) ∧ R first second ∧
        (∀ item ∈ after.head?, R second item) ∧ after.IsChain R := by
  rw [List.isChain_append, List.isChain_cons_cons, List.isChain_cons]
  simp only [List.head?_cons, Option.mem_def, Option.some.injEq, forall_eq']
  tauto

/-- Places outside a stretch of a duplicate-free list are not in it. -/
theorem outside_stretch {α : Type*} {lead middle trail : List α} {left right place : α}
    (hnodup : (lead ++ left :: (middle ++ right :: trail)).Nodup)
    (hplace : place ∈ lead ∨ place ∈ trail) :
    place ≠ left ∧ place ≠ right ∧ place ∉ middle := by
  simp only [List.nodup_append, List.nodup_cons, List.mem_append, List.mem_cons, not_or] at hnodup
  obtain ⟨-, ⟨⟨-, hleftRight, hleftTrail⟩, -, ⟨hrightTrail, -⟩, hmiddle⟩, hlead⟩ := hnodup
  rcases hplace with h | h
  · refine ⟨hlead place h left (.inl rfl), hlead place h right (.inr (.inr (.inl rfl))), ?_⟩
    intro hmem
    exact hlead place h place (.inr (.inl hmem)) rfl
  · refine ⟨?_, ?_, ?_⟩
    · rintro rfl
      exact hleftTrail h
    · rintro rfl
      exact hrightTrail h
    · intro hmem
      exact hmiddle place hmem place (.inr h) rfl

structure Cell (α : Type*) where
  value : α
  next : Nat
  prev : Nat

abbrev Store (α : Type*) := Nat → Option (Cell α)

variable {α : Type*} {store other : Store α}

/-- `later` is the successor of `earlier`, and `earlier` its predecessor. -/
def Joined (store : Store α) (earlier later : Nat) : Prop :=
  (store earlier).map Cell.next = some later ∧ (store later).map Cell.prev = some earlier

/-- The cells at `places`, between the sentinels, hold `values`. -/
structure Represents (store : Store α) (head tail : Nat) (places : List Nat)
    (values : List α) : Prop where
  joined : (head :: (places ++ [tail])).IsChain (Joined store)
  nodup : (head :: (places ++ [tail])).Nodup
  values : places.map (fun place => (store place).map Cell.value) = values.map some

/-- Links survive a change of the store that keeps the cells' pointers. -/
theorem isChain_joined_congr {places : List Nat} (hchain : places.IsChain (Joined store))
    (hagree : ∀ place ∈ places, (other place).map Cell.next = (store place).map Cell.next ∧
      (other place).map Cell.prev = (store place).map Cell.prev) :
    places.IsChain (Joined other) := by
  refine List.IsChain.imp_of_mem_imp ?_ hchain
  intro earlier later hearlier hlater hjoined
  exact ⟨(hagree earlier hearlier).1.trans hjoined.1, (hagree later hlater).2.trans hjoined.2⟩

/-- Every cell of a chain between sentinels is in the store. -/
theorem isSome_of_isChain_joined {head tail : Nat} {places : List Nat}
    (hchain : (head :: (places ++ [tail])).IsChain (Joined store)) {place : Nat}
    (hplace : place ∈ head :: (places ++ [tail])) : (store place).isSome = true := by
  rcases List.mem_cons.mp hplace with rfl | hmem
  · have hnext := hchain
    obtain ⟨first, rest, hplaces⟩ := List.exists_cons_of_ne_nil
      (List.append_ne_nil_of_right_ne_nil places (List.cons_ne_nil tail []))
    rw [hplaces] at hnext
    obtain ⟨cell, hcell, _⟩ := Option.map_eq_some_iff.mp (List.isChain_cons_cons.mp hnext).1.1
    rw [hcell]
    rfl
  · obtain ⟨before, after, hsplit⟩ := List.append_of_mem hmem
    have hjoined := hchain
    rw [hsplit, ← List.cons_append] at hjoined
    obtain ⟨prev, hprev⟩ : ∃ prev, (head :: before).getLast? = some prev :=
      ⟨_, List.getLast?_eq_some_getLast (List.cons_ne_nil _ _)⟩
    have hlink := (List.isChain_append.mp hjoined).2.2 prev hprev place rfl
    obtain ⟨cell, hcell, _⟩ := Option.map_eq_some_iff.mp hlink.2
    rw [hcell]
    rfl

/-- Put a new stretch between `left` and `right`. Outside it only the pointer
from `left` forwards and the one from `right` backwards may have changed. -/
theorem isChain_joined_rejoin {lead middle trail : List Nat} {left right : Nat}
    (hlead : (lead ++ [left]).IsChain (Joined store))
    (htrail : (right :: trail).IsChain (Joined store))
    (hagree : ∀ place, place ∈ lead ∨ place ∈ trail → other place = store place)
    (hleft : (other left).map Cell.prev = (store left).map Cell.prev)
    (hright : (other right).map Cell.next = (store right).map Cell.next)
    (hmiddle : (left :: (middle ++ [right])).IsChain (Joined other)) :
    (lead ++ left :: (middle ++ right :: trail)).IsChain (Joined other) := by
  obtain ⟨hinner, _, hseam⟩ := List.isChain_append.mp hlead
  obtain ⟨houter, htail⟩ := List.isChain_cons.mp htrail
  have hend : (left :: (middle ++ right :: trail)).IsChain (Joined other) := by
    rw [← List.cons_append, List.isChain_append] at hmiddle ⊢
    refine ⟨hmiddle.1, List.isChain_cons.mpr ⟨?_, ?_⟩, hmiddle.2.2⟩
    · intro place hplace
      have hmem : place ∈ trail := List.mem_of_mem_head? hplace
      have hjoined := houter place hplace
      refine ⟨hright.trans hjoined.1, ?_⟩
      rw [hagree place (.inr hmem)]
      exact hjoined.2
    · refine isChain_joined_congr htail fun place hplace => ?_
      rw [hagree place (.inr hplace)]
      exact ⟨rfl, rfl⟩
  refine List.isChain_append.mpr ⟨?_, hend, ?_⟩
  · refine isChain_joined_congr hinner fun place hplace => ?_
    rw [hagree place (.inl hplace)]
    exact ⟨rfl, rfl⟩
  · intro place hplace seam hsame
    obtain rfl : left = seam := by simpa using hsame
    have hmem : place ∈ lead := List.mem_of_mem_getLast? hplace
    have hjoined := hseam place hplace left rfl
    refine ⟨?_, hleft.trans hjoined.2⟩
    rw [hagree place (.inl hmem)]
    exact hjoined.1

namespace Represents

variable {head tail : Nat} {places before after : List Nat} {values front back : List α}

theorem length_eq (hrep : Represents store head tail places values) :
    places.length = values.length := by
  have := congrArg List.length hrep.values
  simpa using this

theorem isSome (hrep : Represents store head tail places values) {place : Nat}
    (hplace : place ∈ head :: (places ++ [tail])) : (store place).isSome = true :=
  isSome_of_isChain_joined hrep.joined hplace

/-- Cut the places where the values are cut. -/
theorem exists_split {value : α}
    (hrep : Represents store head tail places (front ++ value :: back)) :
    ∃ before place after cell, places = before ++ place :: after ∧
      before.length = front.length ∧ store place = some cell ∧ cell.value = value := by
  have hvalues := hrep.values
  rw [List.map_append, List.map_cons, List.map_eq_append_iff] at hvalues
  obtain ⟨before, rest, rfl, hfront, hback⟩ := hvalues
  obtain ⟨place, after, rfl, hplace, _⟩ := List.map_eq_cons_iff.mp hback
  obtain ⟨cell, hcell, hvalue⟩ := Option.map_eq_some_iff.mp hplace
  refine ⟨before, place, after, cell, rfl, ?_, hcell, hvalue⟩
  have := congrArg List.length hfront
  simpa using this

/-- Cut both lists at the same length. -/
theorem values_split (hrep : Represents store head tail (before ++ after) (front ++ back))
    (hlength : before.length = front.length) :
    before.map (fun place => (store place).map Cell.value) = front.map some ∧
      after.map (fun place => (store place).map Cell.value) = back.map some := by
  have hvalues := hrep.values
  rw [List.map_append, List.map_append] at hvalues
  exact List.append_inj hvalues (by simpa using hlength)

/-- The other places, and the sentinels, are not this one. -/
theorem ne_place {place : Nat}
    (hrep : Represents store head tail (before ++ place :: after) values) :
    ∀ kept, kept ∈ before ∨ kept ∈ after → kept ≠ place := by
  have hnodup := (List.nodup_cons.mp hrep.nodup).2
  rw [List.append_assoc, List.cons_append, List.nodup_middle, List.nodup_cons] at hnodup
  rintro kept hkept rfl
  apply hnodup.1
  rcases hkept with h | h <;> simp [h]

/-- Between two sentinels there is one chain of cells. -/
theorem places_unique {others : List Nat} (hchain : (head :: (places ++ [tail])).IsChain
      (Joined store)) (hother : (head :: (others ++ [tail])).IsChain (Joined store))
    (hplaces : tail ∉ places) (hothers : tail ∉ others) : places = others := by
  induction places generalizing head others with
  | nil =>
      cases others with
      | nil => rfl
      | cons second others =>
          have hnext := (List.isChain_cons_cons.mp hchain).1.1
          have hnext' := (List.isChain_cons_cons.mp hother).1.1
          cases hnext.symm.trans hnext'
          simp at hothers
  | cons first places ih =>
      cases others with
      | nil =>
          have hnext := (List.isChain_cons_cons.mp hchain).1.1
          have hnext' := (List.isChain_cons_cons.mp hother).1.1
          cases hnext'.symm.trans hnext
          simp at hplaces
      | cons second others =>
          obtain ⟨hjoined, hrest⟩ := List.isChain_cons_cons.mp hchain
          obtain ⟨hjoined', hrest'⟩ := List.isChain_cons_cons.mp hother
          cases hjoined.1.symm.trans hjoined'.1
          rw [ih hrest hrest' (fun hmem => hplaces (List.mem_cons_of_mem _ hmem))
            (fun hmem => hothers (List.mem_cons_of_mem _ hmem))]

theorem tail_notMem (hrep : Represents store head tail places values) : tail ∉ places := by
  have hnodup := (List.nodup_cons.mp hrep.nodup).2
  rw [List.nodup_append] at hnodup
  intro hmem
  exact hnodup.2.2 _ hmem _ (List.mem_singleton_self _) rfl

/-- A store represents one list of values. -/
theorem unique {others : List Nat} {twins : List α}
    (hrep : Represents store head tail places values)
    (hother : Represents store head tail others twins) : values = twins := by
  obtain rfl := places_unique hrep.joined hother.joined hrep.tail_notMem hother.tail_notMem
  exact List.map_injective_iff.mpr (fun _ _ h => Option.some.inj h)
    (hrep.values.symm.trans hother.values)

/-- The first place, seen from the head, is the first value's cell or the tail. -/
theorem next_head (hrep : Represents store head tail places values) :
    (store head).map Cell.next = (places ++ [tail]).head? := by
  obtain ⟨first, rest, hplaces⟩ := List.exists_cons_of_ne_nil
    (List.append_ne_nil_of_right_ne_nil places (List.cons_ne_nil tail []))
  have hjoined := hrep.joined
  rw [hplaces] at hjoined ⊢
  exact (List.isChain_cons_cons.mp hjoined).1.1

/-- A cell's successor is the next place or the tail, and points back at it. -/
theorem joined_after {place : Nat}
    (hrep : Represents store head tail (before ++ place :: after) values) :
    ∀ next ∈ (after ++ [tail]).head?, Joined store place next := by
  intro next hnext
  have hjoined := hrep.joined
  rw [List.append_assoc, List.cons_append, ← List.cons_append] at hjoined
  exact (List.isChain_cons.mp (List.isChain_append.mp hjoined).2.1).1 next hnext

/-- A cell's predecessor is the place before it or the head, and points at it. -/
theorem joined_before {place : Nat}
    (hrep : Represents store head tail (before ++ place :: after) values) :
    ∀ prev ∈ (head :: before).getLast?, Joined store prev place := by
  intro prev hprev
  have hjoined := hrep.joined
  rw [List.append_assoc, List.cons_append, ← List.cons_append] at hjoined
  exact (List.isChain_append.mp hjoined).2.2 prev hprev place rfl

/-- Replace the value of one cell. -/
theorem setValue {place : Nat} {cell : Cell α} {old value : α}
    (hrep : Represents store head tail (before ++ place :: after) (front ++ old :: back))
    (hlength : before.length = front.length) (hcell : store place = some cell)
    (hplace : other place = some { cell with value })
    (hrest : ∀ kept, kept ≠ place → other kept = store kept) :
    Represents other head tail (before ++ place :: after) (front ++ value :: back) := by
  have hpointers : ∀ kept, (other kept).map Cell.next = (store kept).map Cell.next ∧
      (other kept).map Cell.prev = (store kept).map Cell.prev := by
    intro kept
    by_cases hkept : kept = place
    · subst hkept
      simp [hplace, hcell]
    · rw [hrest kept hkept]
      exact ⟨rfl, rfl⟩
  refine ⟨isChain_joined_congr hrep.joined fun kept _ => hpointers kept, hrep.nodup, ?_⟩
  obtain ⟨hfront, hback⟩ := hrep.values_split hlength
  have hne := hrep.ne_place
  rw [List.map_append, List.map_cons, List.map_append, List.map_cons, hplace]
  congr 1
  · rw [← hfront]
    exact List.map_congr_left fun kept hkept => by rw [hrest kept (hne kept (.inl hkept))]
  · refine congrArg₂ _ rfl ?_
    rw [← (List.cons.inj hback).2]
    exact List.map_congr_left fun kept hkept => by rw [hrest kept (hne kept (.inr hkept))]

/-- The places around a stretch of a list. -/
theorem places_around {lead trail : List Nat} {left right : Nat} (hlead : head :: before = lead ++ [left])
    (htrail : after ++ [tail] = right :: trail) (stretch : List Nat) :
    head :: (before ++ (stretch ++ after) ++ [tail]) = lead ++ left :: (stretch ++ right :: trail) := by
  rw [List.append_assoc, List.append_assoc, htrail, ← List.cons_append, hlead, List.append_assoc,
    List.singleton_append]

/-- Values stay where two cells get other pointers. -/
theorem map_value_eq {left right kept next prev : Nat}
    (hleft : other left = (store left).map fun cell => { cell with next })
    (hright : other right = (store right).map fun cell => { cell with prev })
    (hrest : kept ≠ left → kept ≠ right → other kept = store kept) :
    (other kept).map Cell.value = (store kept).map Cell.value := by
  by_cases hkeptLeft : kept = left
  · rw [hkeptLeft, hleft, Option.map_map]
    rfl
  by_cases hkeptRight : kept = right
  · rw [hkeptRight, hright, Option.map_map]
    rfl
  rw [hrest hkeptLeft hkeptRight]

/-- Link a new cell in between two neighbours. -/
theorem insert (left right : Nat) {place : Nat} {value : α}
    (hrep : Represents store head tail (before ++ after) (front ++ back))
    (hlength : before.length = front.length)
    (hleft : (head :: before).getLast? = some left)
    (hright : (after ++ [tail]).head? = some right)
    (hfresh : place ∉ head :: (before ++ after ++ [tail]))
    (hplace : other place = some ⟨value, right, left⟩)
    (hotherLeft : other left = (store left).map fun cell => { cell with next := place })
    (hotherRight : other right = (store right).map fun cell => { cell with prev := place })
    (hrest : ∀ kept, kept ≠ place → kept ≠ left → kept ≠ right → other kept = store kept) :
    Represents other head tail (before ++ place :: after) (front ++ value :: back) := by
  obtain ⟨lead, hlead⟩ := List.getLast?_eq_some_iff.mp hleft
  obtain ⟨trail, htrail⟩ := List.head?_eq_some_iff.mp hright
  have hold : head :: (before ++ after ++ [tail]) = lead ++ left :: right :: trail :=
    places_around hlead htrail []
  have hnew : head :: (before ++ place :: after ++ [tail]) =
      lead ++ left :: ([place] ++ right :: trail) := places_around hlead htrail [place]
  have hjoined := hrep.joined
  have hnodup := hrep.nodup
  rw [hold] at hjoined hnodup hfresh
  obtain ⟨hchainLead, hseam, hcross, hnextRight, hchainTrail⟩ := isChain_splice.mp hjoined
  obtain ⟨cellLeft, hcellLeft, _⟩ := Option.map_eq_some_iff.mp hcross.1
  obtain ⟨cellRight, hcellRight, _⟩ := Option.map_eq_some_iff.mp hcross.2
  have hvalue : ∀ kept ∈ before ++ after,
      (other kept).map Cell.value = (store kept).map Cell.value := by
    intro kept hkept
    have hmem : kept ∈ lead ++ left :: right :: trail := by
      rw [← hold]
      simp only [List.mem_cons, List.mem_append] at hkept ⊢
      tauto
    exact map_value_eq hotherLeft hotherRight (hrest kept fun heq => hfresh (heq ▸ hmem))
  rw [hcellLeft, Option.map_some] at hotherLeft
  rw [hcellRight, Option.map_some] at hotherRight
  refine ⟨?_, ?_, ?_⟩
  · rw [hnew]
    refine isChain_joined_rejoin ?_ (List.isChain_cons.mpr ⟨hnextRight, hchainTrail⟩) ?_ ?_ ?_ ?_
    · exact List.isChain_append.mpr ⟨hchainLead, List.isChain_singleton _, by simpa using hseam⟩
    · intro kept hkept
      obtain ⟨hneLeft, hneRight, _⟩ := @outside_stretch _ _ [] _ _ _ _ hnodup hkept
      refine hrest kept ?_ hneLeft hneRight
      rintro rfl
      apply hfresh
      rcases hkept with h | h <;> simp [h]
    · rw [hotherLeft, hcellLeft]
      rfl
    · rw [hotherRight, hcellRight]
      rfl
    · simp only [List.singleton_append, List.isChain_cons_cons, List.isChain_singleton, and_true]
      simp [Joined, hotherLeft, hotherRight, hplace]
  · rw [hnew]
    change (lead ++ left :: place :: right :: trail).Nodup
    rw [List.append_cons, List.nodup_middle, ← List.append_cons, List.nodup_cons]
    exact ⟨hfresh, hnodup⟩
  · obtain ⟨hfront, hback⟩ := hrep.values_split hlength
    rw [List.map_append, List.map_cons, List.map_append, List.map_cons, hplace, ← hfront, ← hback]
    congr 1
    · exact List.map_congr_left fun kept hkept => hvalue kept (List.mem_append_left _ hkept)
    · refine congrArg₂ _ rfl ?_
      exact List.map_congr_left fun kept hkept => hvalue kept (List.mem_append_right _ hkept)

/-- Take a cell out; its neighbours close the gap. -/
theorem remove (left right : Nat) {place : Nat} {value : α}
    (hrep : Represents store head tail (before ++ place :: after) (front ++ value :: back))
    (hlength : before.length = front.length)
    (hleft : (head :: before).getLast? = some left)
    (hright : (after ++ [tail]).head? = some right)
    (hotherLeft : other left = (store left).map fun cell => { cell with next := right })
    (hotherRight : other right = (store right).map fun cell => { cell with prev := left })
    (hrest : ∀ kept, kept ≠ place → kept ≠ left → kept ≠ right → other kept = store kept) :
    Represents other head tail (before ++ after) (front ++ back) := by
  obtain ⟨lead, hlead⟩ := List.getLast?_eq_some_iff.mp hleft
  obtain ⟨trail, htrail⟩ := List.head?_eq_some_iff.mp hright
  have hold : head :: (before ++ place :: after ++ [tail]) =
      lead ++ left :: ([place] ++ right :: trail) := places_around hlead htrail [place]
  have hnew : head :: (before ++ after ++ [tail]) = lead ++ left :: ([] ++ right :: trail) :=
    places_around hlead htrail []
  have hjoined := hrep.joined
  have hnodup := hrep.nodup
  have hne := hrep.ne_place
  rw [hold] at hjoined hnodup
  obtain ⟨hchainLead, hseam, henter, hleave, hchain⟩ := isChain_splice.mp hjoined
  have hexit := hleave right rfl
  obtain ⟨hchainTrail, _⟩ := List.isChain_cons.mp hchain
  obtain ⟨cellLeft, hcellLeft, _⟩ := Option.map_eq_some_iff.mp henter.1
  obtain ⟨cellRight, hcellRight, _⟩ := Option.map_eq_some_iff.mp hexit.2
  have hvalue : ∀ kept, kept ∈ before ∨ kept ∈ after →
      (other kept).map Cell.value = (store kept).map Cell.value :=
    fun kept hkept => map_value_eq hotherLeft hotherRight (hrest kept (hne kept hkept))
  rw [hcellLeft, Option.map_some] at hotherLeft
  rw [hcellRight, Option.map_some] at hotherRight
  refine ⟨?_, ?_, ?_⟩
  · rw [hnew]
    refine isChain_joined_rejoin ?_ hchain ?_ ?_ ?_ ?_
    · exact List.isChain_append.mpr ⟨hchainLead, List.isChain_singleton _, by simpa using hseam⟩
    · intro kept hkept
      obtain ⟨hneLeft, hneRight, hnePlace⟩ := outside_stretch hnodup hkept
      exact hrest kept (by simpa using hnePlace) hneLeft hneRight
    · rw [hotherLeft, hcellLeft]
      rfl
    · rw [hotherRight, hcellRight]
      rfl
    · simp only [List.nil_append, List.isChain_cons_cons, List.isChain_singleton, and_true]
      simp [Joined, hotherLeft, hotherRight]
  · rw [hnew]
    change (lead ++ left :: place :: right :: trail).Nodup at hnodup
    rw [List.append_cons, List.nodup_middle, ← List.append_cons, List.nodup_cons] at hnodup
    exact hnodup.2
  · obtain ⟨hfront, hback⟩ := hrep.values_split hlength
    rw [List.map_append, List.map_append, ← hfront, ← (List.cons.inj hback).2]
    congr 1
    · exact List.map_congr_left fun kept hkept => hvalue kept (.inl hkept)
    · exact List.map_congr_left fun kept hkept => hvalue kept (.inr hkept)

end Represents

end Library.LinkedList
