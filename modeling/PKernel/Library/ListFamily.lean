import Mathlib.Logic.Function.Basic
import PKernel.Library.LinkedList

/-! # Several linked lists in one store

Lists between sentinels that live in one store and share no cell. Linking a cell in
at the end of one of them, or taking one out, leaves the others what they were. The
lists that are there are named by an index, and what their cells hold is left open.
-/

namespace Library.LinkedList

open Function (update update_of_ne update_self)

variable {α ι : Type*} {store other : Store α}

/-- The cells at `places` are a list between the sentinels. -/
structure Strung (store : Store α) (head tail : Nat) (places : List Nat) : Prop where
  joined : (head :: (places ++ [tail])).IsChain (Joined store)
  nodup : (head :: (places ++ [tail])).Nodup

namespace Strung

variable {head tail : Nat} {places before after : List Nat}

theorem isSome (hstrung : Strung store head tail places) {place : Nat}
    (hplace : place ∈ head :: (places ++ [tail])) : (store place).isSome = true :=
  isSome_of_isChain_joined hstrung.joined hplace

/-- A list holds some values. -/
theorem represents (hstrung : Strung store head tail places) : Represents store head tail places
    (places.filterMap fun place => (store place).map Cell.value) := by
  refine ⟨hstrung.joined, hstrung.nodup, ?_⟩
  rw [List.map_filterMap_some_eq_filter_map_isSome, List.filter_eq_self.mpr]
  intro value hvalue
  obtain ⟨place, hplace, rfl⟩ := List.mem_map.mp hvalue
  rw [Option.isSome_map]
  exact hstrung.isSome (by simp [hplace])

/-- Only the pointers of its cells matter to a list. -/
theorem congr (hstrung : Strung store head tail places)
    (hagree : ∀ place ∈ head :: (places ++ [tail]),
      (other place).map Cell.next = (store place).map Cell.next ∧
        (other place).map Cell.prev = (store place).map Cell.prev) :
    Strung other head tail places :=
  ⟨isChain_joined_congr hstrung.joined hagree, hstrung.nodup⟩

theorem nil (hne : head ≠ tail) (hnext : (store head).map Cell.next = some tail)
    (hprev : (store tail).map Cell.prev = some head) : Strung store head tail [] := by
  constructor
  · exact List.isChain_pair.mpr ⟨hnext, hprev⟩
  · simpa using hne

/-- The cell behind the head is the first of the list, or the tail. -/
theorem next_head (hstrung : Strung store head tail places) :
    (store head).map Cell.next = (places ++ [tail]).head? :=
  hstrung.represents.next_head

/-- The cell before the tail is the last of the list, or the head. -/
theorem prev_tail (hstrung : Strung store head tail places) :
    (store tail).map Cell.prev = (head :: places).getLast? := by
  have hjoined := hstrung.joined
  rw [← List.cons_append, List.isChain_append] at hjoined
  obtain ⟨last, hlast⟩ : ∃ last, (head :: places).getLast? = some last :=
    ⟨_, List.getLast?_eq_some_getLast (List.cons_ne_nil _ _)⟩
  rw [hlast]
  exact (hjoined.2.2 last hlast tail rfl).2

/-- Link a new cell in before the tail. -/
theorem append (last : Nat) {place : Nat} {value : α} (hstrung : Strung store head tail places)
    (hlast : (head :: places).getLast? = some last)
    (hfresh : place ∉ head :: (places ++ [tail]))
    (hplace : other place = some ⟨value, tail, last⟩)
    (hotherLast : other last = (store last).map fun cell => { cell with next := place })
    (hotherTail : other tail = (store tail).map fun cell => { cell with prev := place })
    (hrest : ∀ kept, kept ≠ place → kept ≠ last → kept ≠ tail → other kept = store kept) :
    Strung other head tail (places ++ [place]) := by
  have hrep : Represents store head tail (places ++ [])
      ((places.filterMap fun place => (store place).map Cell.value) ++ []) := by
    simpa using hstrung.represents
  have hlength := hstrung.represents.length_eq
  have hnew := hrep.insert last tail hlength hlast rfl (by simpa using hfresh) hplace hotherLast
    hotherTail hrest
  exact ⟨hnew.joined, hnew.nodup⟩

/-- The pointers of the cells leave no choice. -/
theorem unique {second : List Nat} (hfirst : Strung store head tail places)
    (hsecond : Strung store head tail second) : places = second := by
  obtain ⟨hfirst, hnodup⟩ := hfirst
  obtain ⟨hsecond, hnodup'⟩ := hsecond
  induction places generalizing head second with
  | nil =>
      cases second with
      | nil => rfl
      | cons place rest =>
          have hnext := (List.isChain_cons_cons.mp hfirst).1.1
          rw [(List.isChain_cons_cons.mp hsecond).1.1] at hnext
          cases hnext
          simp at hnodup'
  | cons place rest ih =>
      have hnext := (List.isChain_cons_cons.mp hfirst).1.1
      cases second with
      | nil =>
          rw [(List.isChain_cons_cons.mp hsecond).1.1] at hnext
          cases hnext
          simp at hnodup
      | cons place' rest' =>
          rw [(List.isChain_cons_cons.mp hsecond).1.1] at hnext
          cases hnext
          rw [ih (List.isChain_cons_cons.mp hfirst).2 (List.nodup_cons.mp hnodup).2
            (List.isChain_cons_cons.mp hsecond).2 (List.nodup_cons.mp hnodup').2]

/-- Take a cell out between its neighbours. -/
theorem remove (left right : Nat) {place : Nat}
    (hstrung : Strung store head tail (before ++ place :: after))
    (hleft : (head :: before).getLast? = some left) (hright : (after ++ [tail]).head? = some right)
    (hotherLeft : other left = (store left).map fun cell => { cell with next := right })
    (hotherRight : other right = (store right).map fun cell => { cell with prev := left })
    (hrest : ∀ kept, kept ≠ place → kept ≠ left → kept ≠ right → other kept = store kept) :
    Strung other head tail (before ++ after) := by
  have hrep := hstrung.represents
  obtain ⟨cell, hcell⟩ := Option.isSome_iff_exists.mp
    (hstrung.isSome (List.mem_cons_of_mem _ (List.mem_append_left _ List.mem_append_cons_self)))
  rw [List.filterMap_append, List.filterMap_cons, hcell] at hrep
  have hlength : before.length =
      (before.filterMap fun place => (store place).map Cell.value).length := by
    refine (List.filterMap_length_eq_length.mpr fun kept hkept => ?_).symm
    rw [Option.isSome_map]
    exact hstrung.isSome (by simp [hkept])
  have hold := hrep.remove left right hlength hleft hright hotherLeft hotherRight hrest
  exact ⟨hold.joined, hold.nodup⟩

/-- The neighbours of a cell of the list. -/
theorem neighbours {place : Nat} (hstrung : Strung store head tail (before ++ place :: after)) :
    ∃ left right, (head :: before).getLast? = some left ∧ (after ++ [tail]).head? = some right ∧
      Joined store left place ∧ Joined store place right := by
  obtain ⟨left, hleft⟩ : ∃ left, (head :: before).getLast? = some left :=
    ⟨_, List.getLast?_eq_some_getLast (List.cons_ne_nil _ _)⟩
  obtain ⟨right, rest, hrest⟩ := List.exists_cons_of_ne_nil
    (List.append_ne_nil_of_right_ne_nil after (List.cons_ne_nil tail []))
  have hright : (after ++ [tail]).head? = some right := by rw [hrest]; rfl
  exact ⟨left, right, hleft, hright, hstrung.represents.joined_before left hleft,
    hstrung.represents.joined_after right hright⟩

end Strung

/-- The lists that are there, between the sentinels that each has. -/
structure Family (store : Store α) (live : ι → Prop) (head tail : ι → Nat) (places : ι → List Nat) :
    Prop where
  strung : ∀ index, live index → Strung store (head index) (tail index) (places index)
  apart : ∀ first second, live first → live second → first ≠ second →
    List.Disjoint (head first :: (places first ++ [tail first]))
      (head second :: (places second ++ [tail second]))

namespace Family

variable {live : ι → Prop} {head tail : ι → Nat} {places : ι → List Nat}

/-- Only the pointers of the cells matter. -/
theorem congr (hfamily : Family store live head tail places)
    (hagree : ∀ index, live index → ∀ place ∈ head index :: (places index ++ [tail index]),
      (other place).map Cell.next = (store place).map Cell.next ∧
        (other place).map Cell.prev = (store place).map Cell.prev) :
    Family other live head tail places where
  strung index hlive := (hfamily.strung index hlive).congr (hagree index hlive)
  apart := hfamily.apart

/-- A cell of a list is in no other. -/
theorem eq_of_mem (hfamily : Family store live head tail places) {first second : ι} {place : Nat}
    (hfirst : live first) (hsecond : live second)
    (hmem : place ∈ head first :: (places first ++ [tail first]))
    (hmem' : place ∈ head second :: (places second ++ [tail second])) : first = second := by
  by_contra hne
  exact hfamily.apart first second hfirst hsecond hne hmem hmem'

/-- Some of the lists are given up. -/
theorem shrink {live' : ι → Prop} (hfamily : Family store live head tail places)
    (hlive : ∀ index, live' index → live index)
    (hrest : ∀ index, live' index → ∀ place ∈ head index :: (places index ++ [tail index]),
      other place = store place) :
    Family other live' head tail places where
  strung index hindex := (hfamily.strung index (hlive index hindex)).congr fun place hplace => by
    rw [hrest index hindex place hplace]
    exact ⟨rfl, rfl⟩
  apart first second hfirst hsecond :=
    hfamily.apart first second (hlive first hfirst) (hlive second hsecond)

variable [DecidableEq ι]

/-- One index has another list, whose cells are in no list of the others. -/
theorem put {live' : ι → Prop} (hfamily : Family store live head tail places) {index : ι}
    (hlive : ∀ second, live' second → second ≠ index → live second) {list : List Nat}
    (hlist : Strung other (head index) (tail index) list)
    (hapart : ∀ second, live second → second ≠ index →
      List.Disjoint (head index :: (list ++ [tail index]))
        (head second :: (places second ++ [tail second])))
    (hrest : ∀ second, live second → second ≠ index →
      ∀ place ∈ head second :: (places second ++ [tail second]), other place = store place) :
    Family other live' head tail (update places index list) where
  strung := by
    intro second hsecond
    by_cases hsame : second = index
    · subst hsame
      rwa [update_self]
    · rw [update_of_ne hsame]
      have hold := hlive second hsecond hsame
      refine (hfamily.strung second hold).congr fun place hplace => ?_
      rw [hrest second hold hsame place hplace]
      exact ⟨rfl, rfl⟩
  apart := by
    intro first second hfirst hsecond hne
    by_cases hsame : first = index
    · subst hsame
      rw [update_self, update_of_ne hne.symm]
      exact hapart second (hlive second hsecond hne.symm) hne.symm
    · by_cases hsame' : second = index
      · subst hsame'
        rw [update_self, update_of_ne hsame]
        exact fun place hplace hplace' =>
          hapart first (hlive first hfirst hsame) hsame hplace' hplace
      · rw [update_of_ne hsame, update_of_ne hsame']
        exact hfamily.apart first second (hlive first hfirst hsame) (hlive second hsecond hsame') hne

/-- One list is replaced by another, whose cells are cells of it or of no list. -/
theorem replace (hfamily : Family store live head tail places) {index : ι} (hlive : live index)
    {list : List Nat} (hlist : Strung other (head index) (tail index) list)
    (hnew : ∀ place ∈ list, place ∈ places index ∨
      ∀ second, live second → place ∉ head second :: (places second ++ [tail second]))
    (hrest : ∀ second, live second → second ≠ index →
      ∀ place ∈ head second :: (places second ++ [tail second]), other place = store place) :
    Family other live head tail (update places index list) := by
  refine hfamily.put (fun second hsecond _ => hsecond) hlist ?_ hrest
  intro second hsecond hne place hplace hplace'
  have hold := hfamily.apart index second hlive hsecond hne.symm
  rw [List.mem_cons, List.mem_append, List.mem_singleton] at hplace
  rcases hplace with rfl | hmem | rfl
  · exact hold List.mem_cons_self hplace'
  · rcases hnew place hmem with hkept | hfresh
    · exact hold (by simp [hkept]) hplace'
    · exact hfresh second hsecond hplace'
  · exact hold (by simp) hplace'

/-- A new list without cells, whose sentinels are in no list. -/
theorem insert {live' : ι → Prop} (hfamily : Family store live head tail places) {index : ι}
    (hlive : ∀ second, live' second → second = index ∨ live second)
    (hlist : Strung other (head index) (tail index) [])
    (hhead : ∀ second, live second → head index ∉ head second :: (places second ++ [tail second]))
    (htail : ∀ second, live second → tail index ∉ head second :: (places second ++ [tail second]))
    (hrest : ∀ second, live second →
      ∀ place ∈ head second :: (places second ++ [tail second]), other place = store place) :
    Family other live' head tail (update places index []) := by
  refine hfamily.put (fun second hsecond hne => (hlive second hsecond).resolve_left hne) hlist ?_
    (fun second hsecond _ => hrest second hsecond)
  intro second hsecond _ place hplace hplace'
  rw [List.nil_append, List.mem_pair] at hplace
  rcases hplace with rfl | rfl
  · exact hhead second hsecond hplace'
  · exact htail second hsecond hplace'

/-- Link a new cell in at the end of one list. -/
theorem append (hfamily : Family store live head tail places) {index : ι} (hlive : live index)
    {place last : Nat} {value : α} (hlast : (head index :: places index).getLast? = some last)
    (hfresh : ∀ second, live second → place ∉ head second :: (places second ++ [tail second]))
    (hplace : other place = some ⟨value, tail index, last⟩)
    (hotherLast : other last = (store last).map fun cell => { cell with next := place })
    (hotherTail : other (tail index) =
      (store (tail index)).map fun cell => { cell with prev := place })
    (hrest : ∀ kept, kept ≠ place → kept ≠ last → kept ≠ tail index → other kept = store kept) :
    Family other live head tail (update places index (places index ++ [place])) := by
  refine hfamily.replace hlive ((hfamily.strung index hlive).append last hlast (hfresh index hlive)
    hplace hotherLast hotherTail hrest) ?_ ?_
  · intro kept hkept
    rcases List.mem_append.mp hkept with hold | hnew
    · exact .inl hold
    · obtain rfl := List.mem_singleton.mp hnew
      exact .inr hfresh
  · intro second hsecond hne kept hkept
    have hout := hfamily.apart second index hsecond hlive hne hkept
    have hmem : last ∈ head index :: (places index ++ [tail index]) := by
      rw [← List.cons_append]
      exact List.mem_append_left _ (List.mem_of_getLast? hlast)
    refine hrest kept (fun hsame => hfresh second hsecond (hsame ▸ hkept))
      (fun hsame => hout (hsame ▸ hmem)) (fun hsame => hout (hsame ▸ by simp))

/-- Take a cell out of one list. -/
theorem remove (hfamily : Family store live head tail places) {index : ι} (hlive : live index)
    {before after : List Nat} {place left right : Nat} (hplaces : places index = before ++ place :: after)
    (hleft : (head index :: before).getLast? = some left)
    (hright : (after ++ [tail index]).head? = some right)
    (hotherLeft : other left = (store left).map fun cell => { cell with next := right })
    (hotherRight : other right = (store right).map fun cell => { cell with prev := left })
    (hrest : ∀ kept, kept ≠ place → kept ≠ left → kept ≠ right → other kept = store kept) :
    Family other live head tail (update places index (before ++ after)) := by
  have hold := hfamily.strung index hlive
  rw [hplaces] at hold
  refine hfamily.replace hlive (hold.remove left right hleft hright hotherLeft hotherRight hrest) ?_ ?_
  · intro kept hkept
    left
    rw [hplaces]
    rcases List.mem_append.mp hkept with hmem | hmem <;> simp [hmem]
  · intro second hsecond hne kept hkept
    have hout := hfamily.apart second index hsecond hlive hne hkept
    rw [hplaces] at hout
    have hmemLeft : left ∈ head index :: (before ++ place :: after ++ [tail index]) := by
      rw [List.append_assoc, ← List.cons_append]
      exact List.mem_append_left _ (List.mem_of_getLast? hleft)
    have hmemRight : right ∈ head index :: (before ++ place :: after ++ [tail index]) := by
      have hmem := List.mem_of_mem_head? hright
      rcases List.mem_append.mp hmem with hafter | htail
      · simp [hafter]
      · obtain rfl := List.mem_singleton.mp htail
        simp
    refine hrest kept (fun hsame => hout (hsame ▸ by simp)) (fun hsame => hout (hsame ▸ hmemLeft))
      (fun hsame => hout (hsame ▸ hmemRight))

end Family

end Library.LinkedList
