import Mathlib.Data.Set.Basic

/-! # Links among owned nodes

Nodes have slots, and a slot may link its node to another. No two links lead to the
same node, and none leads to a base, so that what is reached from the bases is a
forest.
-/

namespace Library.Ownership

variable {Node Slot : Type*}

/-- Links between owned nodes, at most one to each and none to a base. -/
structure Linked (link : Node → Slot → Node → Prop) (owned base : Set Node) : Prop where
  source : ∀ {parent slot child}, link parent slot child → parent ∈ owned
  target : ∀ {parent slot child}, link parent slot child → child ∈ owned
  unique : ∀ {parent other slot place child}, link parent slot child → link other place child →
    parent = other ∧ slot = place
  base_owned : base ⊆ owned
  unlinked : ∀ {parent slot child}, link parent slot child → child ∉ base

namespace Linked

variable {link link' : Node → Slot → Node → Prop} {owned base : Set Node}

/-- Only which links there are matters, and which nodes are bases. -/
theorem congr {base' : Set Node} (hlinked : Linked link owned base)
    (hlink : ∀ parent slot child, link' parent slot child ↔ link parent slot child)
    (hbase : ∀ node, node ∈ base' ↔ node ∈ base) : Linked link' owned base' := by
  have hlinks : link' = link := by
    funext parent slot child
    exact propext (hlink parent slot child)
  have hbases : base' = base := Set.ext hbase
  rw [hlinks, hbases]
  exact hlinked

/-- A new base with one new node below it. -/
theorem grow (hlinked : Linked link owned base) {top below : Node} (place : Slot)
    (htop : top ∉ owned) (hbelow : below ∉ owned) (hne : top ≠ below)
    (hlink : ∀ parent slot child, link' parent slot child ↔
      link parent slot child ∨ parent = top ∧ slot = place ∧ child = below) :
    Linked link' (insert top (insert below owned)) (insert top base) where
  source := by
    intro parent slot child hchild
    rcases (hlink ..).mp hchild with hold | ⟨rfl, -, -⟩
    · exact .inr (.inr (hlinked.source hold))
    · exact .inl rfl
  target := by
    intro parent slot child hchild
    rcases (hlink ..).mp hchild with hold | ⟨-, -, rfl⟩
    · exact .inr (.inr (hlinked.target hold))
    · exact .inr (.inl rfl)
  unique := by
    intro parent other slot place' child hchild hother
    rcases (hlink ..).mp hchild with hold | ⟨rfl, rfl, rfl⟩ <;>
      rcases (hlink ..).mp hother with hold' | ⟨rfl, rfl, hsame⟩
    · exact hlinked.unique hold hold'
    · exact absurd (hsame ▸ hlinked.target hold) hbelow
    · exact absurd (hlinked.target hold') hbelow
    · exact ⟨rfl, rfl⟩
  base_owned := by
    rintro node (rfl | hnode)
    · exact .inl rfl
    · exact .inr (.inr (hlinked.base_owned hnode))
  unlinked := by
    intro parent slot child hchild
    rcases (hlink ..).mp hchild with hold | ⟨-, -, rfl⟩
    · rintro (rfl | hbase)
      · exact htop (hlinked.target hold)
      · exact hlinked.unlinked hold hbase
    · rintro (heq | hbase)
      · exact hne heq.symm
      · exact hbelow (hlinked.base_owned hbase)

/-- A base is linked and is a base no longer. -/
theorem attach (hlinked : Linked link owned base) {top node : Node} (place : Slot)
    (htop : top ∈ owned) (hnode : node ∈ base)
    (hlink : ∀ parent slot child, link' parent slot child ↔
      link parent slot child ∨ parent = top ∧ slot = place ∧ child = node) :
    Linked link' owned (base \ {node}) where
  source := by
    intro parent slot child hchild
    rcases (hlink ..).mp hchild with hold | ⟨rfl, -, -⟩
    · exact hlinked.source hold
    · exact htop
  target := by
    intro parent slot child hchild
    rcases (hlink ..).mp hchild with hold | ⟨-, -, rfl⟩
    · exact hlinked.target hold
    · exact hlinked.base_owned hnode
  unique := by
    intro parent other slot place' child hchild hother
    rcases (hlink ..).mp hchild with hold | ⟨rfl, rfl, rfl⟩ <;>
      rcases (hlink ..).mp hother with hold' | ⟨rfl, rfl, hsame⟩
    · exact hlinked.unique hold hold'
    · exact absurd (hsame ▸ hnode) (hlinked.unlinked hold)
    · exact absurd hnode (hlinked.unlinked hold')
    · exact ⟨rfl, rfl⟩
  base_owned _ hbase := hlinked.base_owned hbase.1
  unlinked := by
    intro parent slot child hchild
    rcases (hlink ..).mp hchild with hold | ⟨-, -, rfl⟩
    · exact fun hbase => hlinked.unlinked hold hbase.1
    · exact fun hbase => hbase.2 rfl

/-- A node is unlinked and is a base from then on. The other links may change their
slots, as long as no two of a node get the same. -/
theorem detach (hlinked : Linked link owned base) {top node : Node} {place : Slot}
    (hnode : link top place node) (slotOf : Node → Slot → Slot)
    (hinjective : ∀ parent, Function.Injective (slotOf parent))
    (hlink : ∀ parent slot child, link' parent slot child → link parent (slotOf parent slot) child)
    (hcut : ∀ slot, slotOf top slot ≠ place) : Linked link' owned (insert node base) where
  source hchild := hlinked.source (hlink _ _ _ hchild)
  target hchild := hlinked.target (hlink _ _ _ hchild)
  unique := by
    intro parent other slot place' child hchild hother
    obtain ⟨rfl, hslot⟩ := hlinked.unique (hlink _ _ _ hchild) (hlink _ _ _ hother)
    exact ⟨rfl, hinjective parent hslot⟩
  base_owned := by
    rintro child (rfl | hchild)
    · exact hlinked.target hnode
    · exact hlinked.base_owned hchild
  unlinked := by
    intro parent slot child hchild
    have hold := hlink _ _ _ hchild
    rintro (rfl | hbase)
    · obtain ⟨rfl, hslot⟩ := hlinked.unique hold hnode
      exact hcut slot hslot
    · exact hlinked.unlinked hold hbase

/-- A base and the nodes below it are given up, whose links come from among themselves. -/
theorem drop (hlinked : Linked link owned base) {gone : Set Node}
    (hgone : ∀ parent slot child, link parent slot child → child ∈ gone → parent ∈ gone)
    (hlink : ∀ parent slot child, link' parent slot child ↔
      link parent slot child ∧ parent ∉ gone) :
    Linked link' (owned \ gone) (base \ gone) where
  source hchild := ⟨hlinked.source ((hlink ..).mp hchild).1, ((hlink ..).mp hchild).2⟩
  target hchild := ⟨hlinked.target ((hlink ..).mp hchild).1,
    fun hmem => ((hlink ..).mp hchild).2 (hgone _ _ _ ((hlink ..).mp hchild).1 hmem)⟩
  unique hchild hother := hlinked.unique ((hlink ..).mp hchild).1 ((hlink ..).mp hother).1
  base_owned _ hbase := ⟨hlinked.base_owned hbase.1, hbase.2⟩
  unlinked hchild hbase := hlinked.unlinked ((hlink ..).mp hchild).1 hbase.1

end Linked

end Library.Ownership
