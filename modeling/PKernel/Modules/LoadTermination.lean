import Mathlib.Data.Fintype.Card
import Mathlib.Data.Set.Finite.List
import PKernel.Modules.LoadRun

/-! # When a module load returns

A call of `module_load` calls itself for each dependency, in the order in which they are listed,
until one fails. A module is in the loaded list only when all its dependencies are, so nothing ends
the calls on a cycle of dependencies that each call comes to.
-/

namespace PKernel.Modules

open Library.Transition Relation

/-! ## Dependencies -/

/-- The module that a name leads to: of those registered under it the last one. -/
def moduleOf (registered : List Module) (name : String) : Option Module :=
  registered.reverse.find? fun module => module.name == name

/-- The module of a name lists a dependency. -/
def DependsOn (registered : List Module) (name dep : String) : Prop :=
  ∃ module, moduleOf registered name = some module ∧ dep ∈ module.deps

/-- A module is registered with all that it needs, and needs nothing in a circle. -/
inductive Loadable (registered : List Module) : String → Prop
  | intro {name : String} {module : Module} (hmodule : moduleOf registered name = some module)
      (hdeps : ∀ dep ∈ module.deps, Loadable registered dep) : Loadable registered name

/-- A dependency that the loop over the list comes to: those before it can be loaded. -/
def ComesTo (registered : List Module) (name dep : String) : Prop :=
  ∃ module before rest, moduleOf registered name = some module ∧
    module.deps = before ++ dep :: rest ∧ ∀ earlier ∈ before, Loadable registered earlier

/-- No chain of dependencies that calls come to leads from a name into a circle. -/
def Unwound (registered : List Module) (name : String) : Prop :=
  ∀ other, ReflTransGen (ComesTo registered) name other →
    ¬TransGen (ComesTo registered) other other

/-- Calls of `module_load` that returned, after the registrations. -/
def calls (env : Environment) (registered : List Module) : System Loader String where
  init loader := loader = registerAll registered
  step loader name next := ∃ fuel result, moduleLoad env fuel name loader = .ok (result, next)

/-- Whatever was loaded before and whatever the functions of the modules return, `module_load`
returns, with an error if the module depends on itself. -/
def LoadReturns (registered : List Module) (name : String) : Prop :=
  ∀ env loader, (calls env registered).Reachable loader →
    ∃ fuel result next, moduleLoad env fuel name loader = .ok (result, next) ∧
      (TransGen (DependsOn registered) name name → result ≠ .ok)

section Dependencies

variable {registered : List Module} {name dep : String}

theorem ComesTo.dependsOn (hcomes : ComesTo registered name dep) : DependsOn registered name dep := by
  obtain ⟨module, before, rest, hmodule, hdeps, -⟩ := hcomes
  exact ⟨module, hmodule, by simp [hdeps]⟩

/-- What can be loaded does not depend on itself. -/
theorem Loadable.not_circular (hloadable : Loadable registered name) :
    ¬TransGen (DependsOn registered) name name := by
  induction hloadable with
  | intro hmodule hdeps ih =>
      intro hcycle
      obtain ⟨next, hnext, hrest⟩ := TransGen.head'_iff.mp hcycle
      obtain ⟨module, hmodule', hmem⟩ := hnext
      cases hmodule.symm.trans hmodule'
      exact ih next hmem (.tail' hrest ⟨_, hmodule, hmem⟩)

/-- From a circle on there is always a next dependency, on the way to the circle. -/
theorem exists_next (hwound : ¬Unwound registered name) :
    ∃ dep, ComesTo registered name dep ∧ ¬Unwound registered dep := by
  simp only [Unwound, not_forall, not_not] at hwound ⊢
  obtain ⟨other, hreach, hcycle⟩ := hwound
  rcases hreach.cases_head with rfl | ⟨dep, hdep, hrest⟩
  · obtain ⟨dep, hdep, hrest⟩ := TransGen.head'_iff.mp hcycle
    exact ⟨dep, hdep, name, hrest, hcycle⟩
  · exact ⟨dep, hdep, other, hrest, hcycle⟩

theorem Loadable.unwound (hloadable : Loadable registered name) : Unwound registered name := by
  induction hloadable with
  | intro hmodule hdeps ih =>
      by_contra hwound
      obtain ⟨dep, hcomes, hdep⟩ := exists_next hwound
      obtain ⟨module, hmodule', hmem⟩ := hcomes.dependsOn
      cases hmodule.symm.trans hmodule'
      exact hdep (ih dep hmem)

/-- There are finitely many modules: where there is no circle the chains end. -/
theorem Unwound.acc (hunwound : Unwound registered name) :
    Acc (fun dep name => ComesTo registered name dep) name := by
  -- only registered names lead on, and there are finitely many of them
  let Place := {other : String // other ∈ registered.map Module.name ∧
    ReflTransGen (ComesTo registered) name other}
  have hfinite : Finite Place :=
    Finite.of_injective (fun place : Place => (⟨place.1, place.2.1⟩ :
      {other // other ∈ registered.map Module.name})) fun first second hsame =>
        Subtype.ext (Subtype.mk.inj hsame)
  let later (first second : Place) : Prop := TransGen (ComesTo registered) second.1 first.1
  have htrans : IsTrans Place later := ⟨fun _ _ _ hfirst hsecond => hsecond.trans hfirst⟩
  have hirrefl : Std.Irrefl later := ⟨fun place => hunwound place.1 place.2.2⟩
  have hwellFounded := Finite.wellFounded_of_trans_of_irrefl later
  have hregistered : ∀ other dep, ComesTo registered other dep →
      other ∈ registered.map Module.name := by
    rintro other dep ⟨module, before, rest, hmodule, -⟩
    have hmem := List.mem_reverse.mp (List.mem_of_find?_eq_some hmodule)
    have hname : module.name = other := by simpa using List.find?_some hmodule
    exact hname ▸ List.mem_map_of_mem hmem
  have hplaces : ∀ place : Place, Acc (fun dep name => ComesTo registered name dep) place.1 := by
    intro place
    induction place using hwellFounded.induction with
    | h place ih =>
        refine ⟨_, fun dep hdep => ?_⟩
        by_cases hmem : dep ∈ registered.map Module.name
        · exact ih ⟨dep, hmem, place.2.2.tail hdep⟩ (.single hdep)
        · exact ⟨_, fun next hnext => absurd (hregistered dep next hnext) hmem⟩
  by_cases hmem : name ∈ registered.map Module.name
  · exact hplaces ⟨name, hmem, .refl⟩
  · exact ⟨_, fun next hnext => absurd (hregistered name next hnext) hmem⟩

end Dependencies

/-! ## Calls that return -/

/-- What every call keeps: a name leads to the same module as long as it is not loaded, and what is
loaded could be. -/
structure Kept (registered : List Module) (loader : Loader) : Prop where
  found : ∀ name, name ∉ loader.names →
    (loader.modules.find? fun module => module.name == name) = moduleOf registered name
  loaded : ∀ name ∈ loader.names, Loadable registered name

section Returns

variable {env : Environment} {registered : List Module} {loader next : Loader} {name : String}
  {module : Module} {result : Result}

theorem kept_registerAll (registered : List Module) : Kept registered (registerAll registered) := by
  rw [registerAll_eq]
  exact ⟨fun _ _ => rfl, fun _ hmem => absurd hmem List.not_mem_nil⟩

theorem find?_erase_of_ne {modules : List Module} (hne : module.name ≠ name) :
    ((modules.erase module).find? fun other => other.name == name) =
      modules.find? fun other => other.name == name := by
  induction modules with
  | nil => rfl
  | cons head rest ih =>
      by_cases hhead : head = module
      · subst hhead
        simp [hne]
      · rw [List.erase_cons_tail (by simpa using hhead), List.find?_cons, List.find?_cons, ih]

theorem Kept.markLoaded (hkept : Kept registered loader) (hloadable : Loadable registered module.name) :
    Kept registered (loader.markLoaded module) := by
  refine ⟨fun other hother => ?_, fun other hother => ?_⟩
  · rw [Loader.markLoaded, Loader.names, List.map_cons, List.mem_cons, not_or] at hother
    rw [Loader.markLoaded, find?_erase_of_ne (Ne.symm hother.1)]
    exact hkept.found other hother.2
  · rcases List.mem_cons.mp hother with rfl | hother
    · exact hloadable
    · exact hkept.loaded other hother

/-- The loop keeps what the calls keep, and comes to its end only if all dependencies could be
loaded. -/
theorem loadDeps_sound {load : String → Loader → Except Fault (Result × Loader)}
    (hload : ∀ dep loader result next, Kept registered loader →
      load dep loader = .ok (result, next) →
        Kept registered next ∧ (result = .ok ∨ result = .modLoaded → Loadable registered dep))
    {deps : List String} (hkept : Kept registered loader)
    (hreturn : loadDeps load deps loader = .ok (result, next)) :
    Kept registered next ∧ result ≠ .modLoaded ∧
      (result = .ok → ∀ dep ∈ deps, Loadable registered dep) := by
  induction deps generalizing loader with
  | nil =>
      cases hreturn
      exact ⟨hkept, nofun, nofun⟩
  | cons dep rest ih =>
      rw [loadDeps] at hreturn
      obtain ⟨⟨first, middle⟩, hfirst, hreturn⟩ := bind_eq_ok.mp hreturn
      obtain ⟨hmiddle, hdep⟩ := hload dep loader first middle hkept hfirst
      dsimp only at hreturn
      split at hreturn
      next hfailed =>
        cases hreturn
        exact ⟨hmiddle, hfailed.2, fun hok => absurd hok hfailed.1⟩
      next hpassed =>
        obtain ⟨hnext, hcode, hrest⟩ := ih hmiddle hreturn
        refine ⟨hnext, hcode, fun hok other hother => ?_⟩
        rcases List.mem_cons.mp hother with rfl | hother
        · by_cases hfirstOk : first = .ok
          · exact hdep (.inl hfirstOk)
          · exact hdep (.inr (not_not.mp fun hne => hpassed ⟨hfirstOk, hne⟩))
        · exact hrest hok other hother

/-- A call that returns no other code than those for success and for a loaded module is one for a
module that could be loaded. -/
theorem moduleLoad_sound {fuel : Nat} (hkept : Kept registered loader)
    (hreturn : moduleLoad env fuel name loader = .ok (result, next)) :
    Kept registered next ∧ (result = .ok ∨ result = .modLoaded → Loadable registered name) := by
  induction fuel generalizing name loader result next with
  | zero => cases hreturn
  | succ fuel ih =>
      rw [moduleLoad] at hreturn
      split at hreturn
      next hany =>
        cases hreturn
        exact ⟨hkept, fun _ => hkept.loaded name (any_name_iff.mp hany)⟩
      next hany =>
        have hnot : name ∉ loader.names := fun hmem => hany (any_name_iff.mpr hmem)
        split at hreturn
        next hfind =>
          cases hreturn
          exact ⟨hkept, by simp⟩
        next module hfind =>
          obtain rfl : module.name = name := by simpa using List.find?_some hfind
          have hmodule : moduleOf registered module.name = some module :=
            (hkept.found _ hnot).symm.trans hfind
          obtain ⟨⟨first, middle⟩, hdeps, hreturn⟩ := bind_eq_ok.mp hreturn
          obtain ⟨hmiddle, hcode, hall⟩ := loadDeps_sound
            (fun dep loader result next hkept hload => ih hkept hload) hkept hdeps
          dsimp only at hreturn
          split at hreturn
          next hfailed =>
            cases hreturn
            exact ⟨hmiddle, fun hpassed => absurd hpassed (not_or.mpr ⟨hfailed, hcode⟩)⟩
          next hpassed =>
            -- its dependencies could be loaded, whatever its own functions return
            have hloadable : Loadable registered module.name :=
              .intro hmodule (hall (not_not.mp hpassed))
            split at hreturn
            next =>
              cases hreturn
              exact ⟨⟨hmiddle.found, hmiddle.loaded⟩, fun _ => hloadable⟩
            next =>
              split at hreturn
              next =>
                cases hreturn
                exact ⟨⟨hmiddle.found, hmiddle.loaded⟩, fun _ => hloadable⟩
              next =>
                cases hreturn
                have hcalled : Kept registered (middle.callInit env module).2 :=
                  ⟨hmiddle.found, hmiddle.loaded⟩
                exact ⟨hcalled.markLoaded hloadable, fun _ => hloadable⟩

theorem Kept.reachable (hreach : (calls env registered).Reachable loader) :
    Kept registered loader :=
  hreach.invariant {
    init := fun _ hinit => hinit ▸ kept_registerAll registered
    step := fun _ _ _ hkept ⟨_, _, hreturn⟩ => (moduleLoad_sound hkept hreturn).1 }

/-! ## More fuel -/

theorem loadDeps_mono {load load' : String → Loader → Except Fault (Result × Loader)}
    (hload : ∀ dep loader outcome, load dep loader = .ok outcome → load' dep loader = .ok outcome)
    {deps : List String} (hreturn : loadDeps load deps loader = .ok (result, next)) :
    loadDeps load' deps loader = .ok (result, next) := by
  induction deps generalizing loader with
  | nil => exact hreturn
  | cons dep rest ih =>
      rw [loadDeps] at hreturn ⊢
      obtain ⟨⟨first, middle⟩, hfirst, hreturn⟩ := bind_eq_ok.mp hreturn
      rw [hload _ _ _ hfirst, ok_bind]
      dsimp only at hreturn ⊢
      split at hreturn
      next hfailed => rw [if_pos hfailed, hreturn]
      next hpassed =>
        rw [if_neg hpassed]
        exact ih hreturn

/-- A call that returns does so with more fuel. -/
theorem moduleLoad_mono {fuel more : Nat} (hle : fuel ≤ more)
    (hreturn : moduleLoad env fuel name loader = .ok (result, next)) :
    moduleLoad env more name loader = .ok (result, next) := by
  induction fuel generalizing more name loader result next with
  | zero => cases hreturn
  | succ fuel ih =>
      obtain ⟨more, rfl⟩ : ∃ rest, more = rest + 1 := ⟨more - 1, by omega⟩
      by_cases hany : (loader.loaded.any fun module => module.name == name) = true
      · rw [moduleLoad, if_pos hany] at hreturn ⊢
        exact hreturn
      · cases hfind : loader.modules.find? fun module => module.name == name with
        | none =>
            rw [moduleLoad, if_neg hany, hfind] at hreturn ⊢
            exact hreturn
        | some module =>
            rw [moduleLoad, if_neg hany, hfind] at hreturn ⊢
            dsimp only at hreturn ⊢
            obtain ⟨⟨first, middle⟩, hdeps, hreturn⟩ := bind_eq_ok.mp hreturn
            have hmore := loadDeps_mono
              (fun dep loader outcome hload => ih (Nat.le_of_succ_le_succ hle) hload) hdeps
            rw [hmore, ok_bind]
            exact hreturn

/-! ## Unwound chains -/

/-- The rest of the loop returns if the calls for the dependencies that it comes to do. -/
theorem loadDeps_terminates (hmodule : moduleOf registered name = some module)
    (hreturns : ∀ dep, ComesTo registered name dep → ∀ loader, Kept registered loader →
      ∃ fuel result next, moduleLoad env fuel dep loader = .ok (result, next))
    {before rest : List String} (hsplit : module.deps = before ++ rest)
    (hbefore : ∀ dep ∈ before, Loadable registered dep) (hkept : Kept registered loader) :
    ∃ fuel result next, loadDeps (moduleLoad env fuel) rest loader = .ok (result, next) := by
  induction rest generalizing before loader with
  | nil => exact ⟨0, .ok, loader, rfl⟩
  | cons dep rest ih =>
      obtain ⟨fuel, first, middle, hfirst⟩ :=
        hreturns dep ⟨module, before, rest, hmodule, hsplit, hbefore⟩ loader hkept
      obtain ⟨hmiddle, hdep⟩ := moduleLoad_sound hkept hfirst
      by_cases hfailed : first ≠ .ok ∧ first ≠ .modLoaded
      · refine ⟨fuel, first, middle, ?_⟩
        rw [loadDeps, hfirst, ok_bind]
        exact if_pos hfailed
      · have hloadable : Loadable registered dep := by
          by_cases hok : first = .ok
          · exact hdep (.inl hok)
          · exact hdep (.inr (not_not.mp fun hne => hfailed ⟨hok, hne⟩))
        obtain ⟨restFuel, result, next, hrest⟩ := @ih middle (before ++ [dep])
          (by rw [hsplit, List.append_assoc, List.singleton_append])
          (fun other hother => (List.mem_append.mp hother).elim (hbefore other) fun hlast =>
            List.mem_singleton.mp hlast ▸ hloadable) hmiddle
        refine ⟨max fuel restFuel, result, next, ?_⟩
        rw [loadDeps, moduleLoad_mono (Nat.le_max_left _ _) hfirst, ok_bind]
        dsimp only
        rw [if_neg hfailed]
        exact loadDeps_mono
          (fun _ _ _ hload => moduleLoad_mono (Nat.le_max_right fuel restFuel) hload) hrest

theorem moduleLoad_terminates (hacc : Acc (fun dep name => ComesTo registered name dep) name)
    (hkept : Kept registered loader) :
    ∃ fuel result next, moduleLoad env fuel name loader = .ok (result, next) := by
  induction hacc generalizing loader with
  | intro name _ ih =>
      by_cases hloaded : (loader.loaded.any fun module => module.name == name) = true
      · exact ⟨1, .modLoaded, loader, by rw [moduleLoad, if_pos hloaded]; rfl⟩
      · have hnot : name ∉ loader.names := fun hmem => hloaded (any_name_iff.mpr hmem)
        cases hfind : loader.modules.find? fun module => module.name == name with
        | none => exact ⟨1, .modNone, loader, by rw [moduleLoad, if_neg hloaded, hfind]; rfl⟩
        | some module =>
            have hmodule : moduleOf registered name = some module :=
              (hkept.found name hnot).symm.trans hfind
            obtain ⟨fuel, first, middle, hdeps⟩ := @loadDeps_terminates env registered loader name
              module hmodule (fun dep hdep loader hkept => ih dep hdep hkept) [] module.deps rfl
              (fun _ hmem => absurd hmem List.not_mem_nil) hkept
            refine ⟨fuel + 1, ?_⟩
            rw [moduleLoad, if_neg hloaded, hfind]
            dsimp only
            rw [hdeps, ok_bind]
            dsimp only
            split_ifs <;> exact ⟨_, _, rfl⟩

end Returns

/-! ## Circles -/

/-- All functions of the modules and of `sysfs` return 0. -/
def success : Environment := ⟨fun _ _ => .ok, fun _ => .ok⟩

section Circles

variable {registered : List Module} {loader next : Loader} {name : String} {module : Module}
  {result : Result} {fuel : Nat}

/-- A loop that returns has passed the dependencies for which every call that returns is passed. -/
theorem loadDeps_passes {load : String → Loader → Except Fault (Result × Loader)}
    {before rest : List String}
    (hload : ∀ dep ∈ before, ∀ loader result next, Kept registered loader →
      load dep loader = .ok (result, next) →
        Kept registered next ∧ (result = .ok ∨ result = .modLoaded))
    (hkept : Kept registered loader)
    (hreturn : loadDeps load (before ++ rest) loader = .ok (result, next)) :
    ∃ middle, Kept registered middle ∧ loadDeps load rest middle = .ok (result, next) := by
  induction before generalizing loader with
  | nil => exact ⟨loader, hkept, hreturn⟩
  | cons dep before ih =>
      rw [List.cons_append, loadDeps] at hreturn
      obtain ⟨⟨first, middle⟩, hfirst, hreturn⟩ := bind_eq_ok.mp hreturn
      obtain ⟨hmiddle, hpassed⟩ := hload dep List.mem_cons_self loader first middle hkept hfirst
      dsimp only at hreturn
      rw [if_neg fun hfailed => hpassed.elim hfailed.1 hfailed.2] at hreturn
      exact ih (fun other hother => hload other (List.mem_cons_of_mem dep hother)) hmiddle hreturn

/-- Without failures no module that could be loaded fails to load. -/
theorem load_succeeds (hloadable : Loadable registered name) (hkept : Kept registered loader)
    (hreturn : moduleLoad success fuel name loader = .ok (result, next)) :
    result = .ok ∨ result = .modLoaded := by
  induction hloadable generalizing fuel loader next result with
  | @intro name module hmodule hdeps ih =>
      cases fuel with
      | zero => cases hreturn
      | succ fuel =>
          rw [moduleLoad] at hreturn
          split at hreturn
          next =>
            cases hreturn
            exact .inr rfl
          next hany =>
            rw [hkept.found name fun hmem => hany (any_name_iff.mpr hmem), hmodule] at hreturn
            obtain ⟨⟨first, middle⟩, hloop, hreturn⟩ := bind_eq_ok.mp hreturn
            rw [← List.append_nil module.deps] at hloop
            obtain ⟨last, -, hend⟩ := loadDeps_passes
              (fun dep hdep loader result next hkept hload =>
                ⟨(moduleLoad_sound hkept hload).1, ih dep hdep hkept hload⟩) hkept hloop
            cases hend
            cases hreturn
            exact .inl rfl

/-- On the way into a circle the calls do not return. -/
theorem moduleLoad_stuck (hwound : ¬Unwound registered name) (hkept : Kept registered loader) :
    moduleLoad success fuel name loader ≠ .ok (result, next) := by
  induction fuel generalizing name loader result next with
  | zero => nofun
  | succ fuel ih =>
      intro hreturn
      obtain ⟨dep, ⟨module, before, rest, hmodule, hsplit, hbefore⟩, hdep⟩ := exists_next hwound
      rw [moduleLoad] at hreturn
      split at hreturn
      next hany => exact hwound (hkept.loaded name (any_name_iff.mp hany)).unwound
      next hany =>
        rw [hkept.found name fun hmem => hany (any_name_iff.mpr hmem), hmodule] at hreturn
        obtain ⟨⟨first, middle⟩, hloop, -⟩ := bind_eq_ok.mp hreturn
        rw [hsplit] at hloop
        obtain ⟨reached, hreached, hloop⟩ := loadDeps_passes
          (fun other hother loader result next hkept hload =>
            ⟨(moduleLoad_sound hkept hload).1, load_succeeds (hbefore other hother) hkept hload⟩)
          hkept hloop
        rw [loadDeps] at hloop
        obtain ⟨⟨result, next⟩, hload, -⟩ := bind_eq_ok.mp hloop
        exact ih hdep hreached hload

end Circles

/-- `module_load` returns for a name, whatever the functions of the modules do and whatever was
loaded before, exactly if its dependencies do not lead into a circle before a missing module ends
the calls. -/
theorem loadReturns_iff (registered : List Module) (name : String) :
    LoadReturns registered name ↔ Unwound registered name := by
  constructor
  · intro hreturns
    by_contra hwound
    obtain ⟨fuel, result, next, hreturn, -⟩ := hreturns success (registerAll registered) (.init rfl)
    exact moduleLoad_stuck hwound (kept_registerAll registered) hreturn
  · intro hunwound env loader hreach
    have hkept := Kept.reachable hreach
    obtain ⟨fuel, result, next, hreturn⟩ := moduleLoad_terminates hunwound.acc hkept
    refine ⟨fuel, result, next, hreturn, fun hcircle hok => ?_⟩
    exact ((moduleLoad_sound hkept hreturn).2 (.inl hok)).not_circular hcircle

/-- Two modules that need each other. -/
def circle : List Module := [⟨"first", ["second"]⟩, ⟨"second", ["first"]⟩]

theorem not_loadReturns : ¬∀ registered name, LoadReturns registered name := by
  intro hreturns
  obtain ⟨fuel, result, next, hreturn, -⟩ := hreturns circle "first" success (registerAll circle) (.init rfl)
  refine moduleLoad_stuck ?_ (kept_registerAll circle) hreturn
  have hfirst : ComesTo circle "first" "second" := ⟨⟨"first", ["second"]⟩, [], [], rfl, rfl, nofun⟩
  have hsecond : ComesTo circle "second" "first" := ⟨⟨"second", ["first"]⟩, [], [], rfl, rfl, nofun⟩
  exact fun hunwound => hunwound "first" .refl (.tail (.single hfirst) hsecond)

end PKernel.Modules
