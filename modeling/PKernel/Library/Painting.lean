import Mathlib.Data.List.Nodup
import Mathlib.Logic.Function.Basic

/-! # Painting

Loops that change a picture place by place. If they come to no place twice, each place is
changed once, and the others stay as they are.
-/

namespace Library.Painting

variable {Place Value Item : Type*} {place : Item → Place} {change : Item → Value → Value}
  {items : List Item} {picture : Place → Value}

/-- A loop whose steps set what they hit. -/
theorem foldl_of_hit {step : (Place → Value) → Item → Place → Value} {hits : Item → Place → Prop}
    {value : Place → Value}
    (hhit : ∀ item ∈ items, ∀ picture spot, hits item spot → step picture item spot = value spot)
    (hmiss : ∀ item ∈ items, ∀ picture spot, ¬ hits item spot → step picture item spot = picture spot)
    {spot : Place} :
    ((∃ item ∈ items, hits item spot) → items.foldl step picture spot = value spot) ∧
      ((∀ item ∈ items, ¬ hits item spot) → items.foldl step picture spot = picture spot) := by
  induction items generalizing picture with
  | nil => exact ⟨fun hexists => by simp at hexists, fun _ => rfl⟩
  | cons head items ih =>
      obtain ⟨hset, hkeep⟩ : ((∃ item ∈ items, hits item spot) →
          items.foldl step (step picture head) spot = value spot) ∧
          ((∀ item ∈ items, ¬ hits item spot) →
            items.foldl step (step picture head) spot = step picture head spot) :=
        ih (fun item hitem => hhit item (List.mem_cons_of_mem _ hitem))
          (fun item hitem => hmiss item (List.mem_cons_of_mem _ hitem))
      refine ⟨?_, fun hnone => ?_⟩
      · rintro ⟨item, hitem, hhits⟩
        by_cases hrest : ∃ item ∈ items, hits item spot
        · exact hset hrest
        · have hlast : ∀ item ∈ items, ¬ hits item spot :=
            fun item hitem hhits => hrest ⟨item, hitem, hhits⟩
          rcases List.mem_cons.mp hitem with rfl | hitem
          · exact (hkeep hlast).trans (hhit item List.mem_cons_self picture spot hhits)
          · exact absurd hhits (hlast item hitem)
      · refine (hkeep fun item hitem => hnone item (List.mem_cons_of_mem _ hitem)).trans ?_
        exact hmiss head List.mem_cons_self picture spot (hnone head List.mem_cons_self)

variable [DecidableEq Place]

/-- A picture after each item has changed the value at its place. -/
def paint (place : Item → Place) (change : Item → Value → Value) (items : List Item)
    (picture : Place → Value) : Place → Value :=
  items.foldl (fun picture item =>
    Function.update picture (place item) (change item (picture (place item)))) picture

theorem paint_of_forall_ne {spot : Place} (hne : ∀ item ∈ items, place item ≠ spot) :
    paint place change items picture spot = picture spot := by
  induction items generalizing picture with
  | nil => rfl
  | cons item items ih =>
      rw [paint, List.foldl_cons, ← paint, ih fun other hother =>
        hne other (List.mem_cons_of_mem _ hother)]
      exact Function.update_of_ne (hne item List.mem_cons_self).symm _ _

theorem paint_of_mem (hnodup : items.Nodup)
    (hinjective : ∀ item ∈ items, ∀ other ∈ items, place item = place other → item = other)
    {item : Item} (hitem : item ∈ items) :
    paint place change items picture (place item) = change item (picture (place item)) := by
  induction items generalizing picture with
  | nil => cases hitem
  | cons head items ih =>
      obtain ⟨hhead, hnodup⟩ := List.nodup_cons.mp hnodup
      have hapart : ∀ other ∈ items, place other ≠ place head := by
        intro other hother hsame
        have heq := hinjective other (List.mem_cons_of_mem _ hother) head List.mem_cons_self hsame
        exact hhead (heq ▸ hother)
      rw [paint, List.foldl_cons, ← paint]
      rcases List.mem_cons.mp hitem with rfl | hitem
      · rw [paint_of_forall_ne hapart, Function.update_self]
      · rw [ih hnodup (fun first hfirst second hsecond => hinjective first
          (List.mem_cons_of_mem _ hfirst) second (List.mem_cons_of_mem _ hsecond)) hitem,
          Function.update_of_ne (hapart item hitem)]

/-- A loop within a loop goes through pairs. -/
theorem foldl_foldl_eq_paint {Outer Inner : Type*} {outer : List Outer} {inner : List Inner}
    {place : Outer × Inner → Place} {change : Outer × Inner → Value → Value} :
    outer.foldl (fun picture first => inner.foldl (fun picture second =>
      Function.update picture (place (first, second))
        (change (first, second) (picture (place (first, second))))) picture) picture =
      paint place change (outer ×ˢ inner) picture := by
  rw [paint]
  change _ = List.foldl _ _ (outer.flatMap fun first => inner.map (Prod.mk first))
  rw [List.foldl_flatMap]
  simp only [List.foldl_map]

end Library.Painting
