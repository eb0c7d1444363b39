import Mathlib.Data.List.Nodup
import Mathlib.Logic.Function.Basic

/-! # Entries that spell a finite map

A list of entries with a key and a value each spells a partial function when the
keys are distinct and the entries are its graph. The order does not matter. An
entry for a new key adds it to the function, and taking an entry out removes its
key.
-/

namespace Library.Associations

variable {ε κ ν : Type*} {key : ε → κ} {value : ε → ν} {entries other before after : List ε}
  {entry : ε} {map : κ → Option ν}

/-- Distinct keys, and the graph of `map`. -/
structure Spells (key : ε → κ) (value : ε → ν) (entries : List ε) (map : κ → Option ν) : Prop where
  nodup : (entries.map key).Nodup
  sound : ∀ entry ∈ entries, map (key entry) = some (value entry)
  complete : ∀ k, (map k).isSome → ∃ entry ∈ entries, key entry = k

theorem spells_nil : Spells key value [] fun _ => none :=
  ⟨List.nodup_nil, by simp, by simp⟩

namespace Spells

theorem perm (hspells : Spells key value entries map) (hperm : entries.Perm other) :
    Spells key value other map := by
  refine ⟨(hperm.map key).nodup_iff.mp hspells.nodup, ?_, ?_⟩
  · intro entry hentry
    exact hspells.sound entry (hperm.mem_iff.mpr hentry)
  · intro k hsome
    obtain ⟨entry, hentry, hkey⟩ := hspells.complete k hsome
    exact ⟨entry, hperm.mem_iff.mp hentry, hkey⟩

theorem eq_none_iff (hspells : Spells key value entries map) {k : κ} :
    map k = none ↔ ∀ entry ∈ entries, key entry ≠ k := by
  constructor
  · rintro hnone entry hentry rfl
    rw [hspells.sound entry hentry] at hnone
    cases hnone
  · intro habsent
    by_contra hsome
    obtain ⟨entry, hentry, hkey⟩ := hspells.complete k (Option.isSome_iff_ne_none.mpr hsome)
    exact habsent entry hentry hkey

/-- A search for a key finds its entry. -/
theorem find?_eq [DecidableEq κ] (hspells : Spells key value entries map) (k : κ) :
    (entries.find? fun entry => key entry = k).map value = map k := by
  cases hfind : entries.find? fun entry => key entry = k with
  | none =>
      have habsent := List.find?_eq_none.mp hfind
      exact (hspells.eq_none_iff.mpr fun entry hentry => by simpa using habsent entry hentry).symm
  | some entry =>
      have hkey : key entry = k := by simpa using List.find?_some hfind
      rw [← hkey, hspells.sound entry (List.mem_of_find?_eq_some hfind)]
      rfl

variable [DecidableEq κ]

theorem insert (hspells : Spells key value entries map) (hnew : map (key entry) = none) :
    Spells key value (entry :: entries)
      (Function.update map (key entry) (some (value entry))) := by
  have habsent := hspells.eq_none_iff.mp hnew
  refine ⟨?_, ?_, ?_⟩
  · rw [List.map_cons, List.nodup_cons]
    refine ⟨?_, hspells.nodup⟩
    intro hmem
    obtain ⟨old, hold, hkey⟩ := List.mem_map.mp hmem
    exact habsent old hold hkey
  · intro old hold
    rcases List.mem_cons.mp hold with rfl | hold
    · exact Function.update_self ..
    · rw [Function.update_of_ne (habsent old hold)]
      exact hspells.sound old hold
  · intro k hsome
    by_cases hkey : k = key entry
    · exact ⟨entry, List.mem_cons_self, hkey.symm⟩
    · rw [Function.update_of_ne hkey] at hsome
      obtain ⟨old, hold, hold'⟩ := hspells.complete k hsome
      exact ⟨old, List.mem_cons_of_mem _ hold, hold'⟩

theorem remove (hspells : Spells key value (before ++ entry :: after) map) :
    Spells key value (before ++ after) (Function.update map (key entry) none) := by
  have hsplit := hspells.perm List.perm_middle
  have hnodup := List.nodup_cons.mp hsplit.nodup
  have hne : ∀ kept ∈ before ++ after, key kept ≠ key entry := by
    intro kept hkept hkey
    exact hnodup.1 (hkey ▸ List.mem_map_of_mem hkept)
  refine ⟨hnodup.2, ?_, ?_⟩
  · intro kept hkept
    rw [Function.update_of_ne (hne kept hkept)]
    exact hsplit.sound kept (List.mem_cons_of_mem _ hkept)
  · intro k hsome
    by_cases hkey : k = key entry
    · simp [hkey] at hsome
    · rw [Function.update_of_ne hkey] at hsome
      obtain ⟨kept, hkept, rfl⟩ := hsplit.complete k hsome
      rcases List.mem_cons.mp hkept with rfl | hkept
      · exact absurd rfl hkey
      · exact ⟨kept, hkept, rfl⟩

/-- Nothing to remove. -/
theorem update_none (hnone : map k = none) : Function.update map k none = map := by
  rw [← hnone, Function.update_eq_self]

end Spells

end Library.Associations
