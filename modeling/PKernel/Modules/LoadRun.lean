import Mathlib.Data.List.Nodup
import Mathlib.Data.List.Perm.Subperm
import Mathlib.Logic.Relation
import PKernel.Library.Transition
import PKernel.Modules.Loader

/-! # The order in which modules are loaded

A call of `module_load` loads what the module depends on, directly or not, before the
module, whatever the `init` functions return and whatever was loaded before. An `init`
that fails with `ERROR_MOD_LOADED` is taken for a module that is loaded.
-/

namespace PKernel.Modules

open Library.Transition Relation

/-- A registered module of this name lists the dependency. -/
def Depends (registered : List Module) (name dep : String) : Prop :=
  ∃ module ∈ registered, module.name = name ∧ dep ∈ module.deps

def Acyclic (registered : List Module) : Prop :=
  ∀ name, ¬TransGen (Depends registered) name name

/-- No `init` of a dependency fails with the code for a module that is loaded. -/
def Environment.Honest (env : Environment) (registered : List Module) : Prop :=
  ∀ name dep, Depends registered name dep → ∀ n, env.init dep n ≠ .modLoaded

/-- The calls of a module's `init` that were a success. -/
def Loader.successes (loader : Loader) (name : String) : Nat :=
  loader.inits.countP fun call => call.name = name ∧ call.result = .ok

/-- `modules_init` and the registrations. -/
def registerAll (registered : List Module) : Loader :=
  registered.foldl moduleRegisterStatic modulesInit

/-- Calls of `module_load` after the registrations. No chain of dependencies is longer than
there are modules. -/
def system (env : Environment) (registered : List Module) : System Loader String where
  init loader := loader = registerAll registered
  step loader name next :=
    ∃ result, moduleLoad env (registered.length + 1) name loader = .ok (result, next)

/-- What holds between two calls. -/
structure Consistent (env : Environment) (registered : List Module) (loader : Loader) : Prop where
  inits : ∀ call ∈ loader.inits, ∀ dep, Depends registered call.name dep → dep ∈ call.loaded
  once : ∀ name, loader.successes name ≤ 1
  /-- The next call returns, and with `ERROR_OK` only if all is loaded that it needs. -/
  returns : ∀ name, ∃ result next,
    moduleLoad env (registered.length + 1) name loader = .ok (result, next) ∧
      (result = .ok → ∀ dep, ReflTransGen (Depends registered) name dep → dep ∈ next.names)
  partition : ∀ module ∈ registered, loader.loaded.count module + loader.modules.count module = 1

/-- What every call keeps. -/
structure Invariant (registered : List Module) (loader : Loader) : Prop where
  perm : (loader.loaded ++ loader.modules).Perm registered
  closed : ∀ name ∈ loader.names, ∀ dep, Depends registered name dep → dep ∈ loader.names
  inits : ∀ call ∈ loader.inits, ∀ dep, Depends registered call.name dep → dep ∈ call.loaded
  successes : ∀ name, loader.successes name = if name ∈ loader.names then 1 else 0

/-- Between two states only modules were loaded whose names are `allowed`. -/
structure Grown (allowed : String → Prop) (before after : Loader) : Prop where
  kept : ∀ name ∈ before.names, name ∈ after.names
  new : ∀ name ∈ after.names, name ∈ before.names ∨ allowed name

namespace Grown

variable {allowed allowed' : String → Prop} {first second third : Loader}

theorem refl : Grown allowed first first := ⟨fun _ hmem => hmem, fun _ hmem => .inl hmem⟩

theorem trans (hfirst : Grown allowed first second) (hsecond : Grown allowed second third) :
    Grown allowed first third where
  kept name hmem := hsecond.kept name (hfirst.kept name hmem)
  new name hmem := (hsecond.new name hmem).elim (hfirst.new name) .inr

theorem mono (hgrown : Grown allowed first second) (himp : ∀ name, allowed name → allowed' name) :
    Grown allowed' first second where
  kept := hgrown.kept
  new name hmem := (hgrown.new name hmem).imp_right (himp name)

end Grown

variable {env : Environment} {registered : List Module} {loader next : Loader} {name : String}
  {module : Module} {result : Result}

theorem any_name_iff : (loader.loaded.any fun module => module.name == name) = true ↔
    name ∈ loader.names := by
  simp [Loader.names, List.any_eq_true]

/-- With distinct names a registered module alone decides what its name depends on. -/
theorem depends_iff (hnames : (registered.map Module.name).Nodup) (hmodule : module ∈ registered)
    {dep : String} : Depends registered module.name dep ↔ dep ∈ module.deps := by
  refine ⟨?_, fun hdep => ⟨module, hmodule, rfl, hdep⟩⟩
  rintro ⟨other, hother, hname, hdep⟩
  rwa [List.inj_on_of_nodup_map hnames hother hmodule hname] at hdep

namespace Invariant

theorem mem_registered (hloader : Invariant registered loader) (hmodule : module ∈ loader.modules) :
    module ∈ registered := hloader.perm.subset (List.mem_append_right _ hmodule)

/-- A registered module is not loaded exactly if it is in the other list. -/
theorem mem_modules (hloader : Invariant registered loader) (hmodule : module ∈ registered)
    (hnot : module.name ∉ loader.names) : module ∈ loader.modules := by
  rcases List.mem_append.mp (hloader.perm.symm.subset hmodule) with hloaded | hmodules
  · exact absurd (List.mem_map_of_mem hloaded) hnot
  · exact hmodules

/-- What is loaded is loaded with all it needs. -/
theorem loaded_with_deps (hloader : Invariant registered loader) (hname : name ∈ loader.names)
    {dep : String} (hdep : ReflTransGen (Depends registered) name dep) : dep ∈ loader.names := by
  induction hdep with
  | refl => exact hname
  | tail _ hdepends ih => exact hloader.closed _ ih _ hdepends

/-- A call of `init` that fails. -/
theorem failed (hloader : Invariant registered loader)
    (hdeps : ∀ dep, Depends registered module.name dep → dep ∈ loader.names)
    (hfail : env.init module.name loader.inits.length ≠ .ok) :
    Invariant registered (loader.callInit env module).2 where
  perm := hloader.perm
  closed := hloader.closed
  inits call hcall := by
    rcases List.mem_cons.mp hcall with rfl | hcall
    · exact hdeps
    · exact hloader.inits call hcall
  successes other := by
    rw [Loader.successes, Loader.callInit, List.countP_cons_of_neg (by simp [hfail])]
    exact hloader.successes other

/-- A call of `init` that is a success, and the module in the other list. -/
theorem loaded (hloader : Invariant registered loader) (hmodule : module ∈ loader.modules)
    (hnot : module.name ∉ loader.names)
    (hdeps : ∀ dep, Depends registered module.name dep → dep ∈ loader.names)
    (hok : env.init module.name loader.inits.length = .ok) :
    Invariant registered ((loader.callInit env module).2.markLoaded module) where
  perm := by
    refine List.Perm.trans ?_ hloader.perm
    exact List.perm_middle.symm.trans
      (List.Perm.append_left loader.loaded (List.perm_cons_erase hmodule).symm)
  closed := by
    intro other hother dep hdep
    rcases List.mem_cons.mp hother with rfl | hother
    · exact List.mem_cons_of_mem _ (hdeps dep hdep)
    · exact List.mem_cons_of_mem _ (hloader.closed other hother dep hdep)
  inits call hcall := by
    rcases List.mem_cons.mp hcall with rfl | hcall
    · exact hdeps
    · exact hloader.inits call hcall
  successes other := by
    have hbefore := hloader.successes other
    simp only [Loader.successes, Loader.callInit, Loader.markLoaded, Loader.names, hok] at hbefore ⊢
    rw [List.countP_cons, hbefore]
    by_cases hsame : module.name = other
    · subst hsame
      have hnot' : module.name ∉ loader.loaded.map Module.name := hnot
      simp [hnot']
    · simp [hsame, Ne.symm hsame]

end Invariant

/-- What a call promises when it returns. -/
structure Promise (env : Environment) (registered : List Module) (name : String) (loader : Loader)
    (result : Result) (next : Loader) : Prop where
  invariant : Invariant registered next
  grown : Grown (ReflTransGen (Depends registered) name) loader next
  ok : result = .ok → name ∈ next.names
  /-- The code for a loaded module is right unless it comes from the module itself. -/
  modLoaded : result = .modLoaded → (∀ n, env.init name n ≠ .modLoaded) → name ∈ next.names

/-- The loop over dependencies, given what a call for each of them promises. -/
theorem loadDeps_spec {load : String → Loader → Except Fault (Result × Loader)}
    (hload : ∀ dep loader result next, Depends registered name dep → Invariant registered loader →
      load dep loader = .ok (result, next) → Promise env registered dep loader result next)
    (hhonest : env.Honest registered) {deps : List String}
    (hdeps : ∀ dep ∈ deps, Depends registered name dep) (hloader : Invariant registered loader)
    (hreturn : loadDeps load deps loader = .ok (result, next)) :
    Invariant registered next ∧ Grown (TransGen (Depends registered) name) loader next ∧
      result ≠ .modLoaded ∧
      (result = .ok → ∀ dep ∈ deps, dep ∈ next.names) := by
  induction deps generalizing loader with
  | nil =>
      rw [loadDeps, Except.ok.injEq, Prod.mk.injEq] at hreturn
      obtain ⟨rfl, rfl⟩ := hreturn
      exact ⟨hloader, .refl, by simp, by simp⟩
  | cons dep rest ih =>
      rw [loadDeps] at hreturn
      obtain ⟨⟨first, middle⟩, hfirst, hreturn⟩ := bind_eq_ok.mp hreturn
      have hdep := hdeps dep List.mem_cons_self
      have hpromise := hload dep loader first middle hdep hloader hfirst
      have hgrown : Grown (TransGen (Depends registered) name) loader middle :=
        hpromise.grown.mono fun _ => .head' hdep
      dsimp only at hreturn
      split at hreturn
      next hfailed =>
        cases hreturn
        exact ⟨hpromise.invariant, hgrown, hfailed.2, fun hok => absurd hok hfailed.1⟩
      next hpassed =>
        have hloaded : dep ∈ middle.names := by
          by_cases hok : first = .ok
          · exact hpromise.ok hok
          · have hcode : first = .modLoaded := not_not.mp fun hne => hpassed ⟨hok, hne⟩
            exact hpromise.modLoaded hcode (hhonest name dep hdep)
        obtain ⟨hinvariant, hgrown', hcode, hall⟩ := ih
          (fun other hother => hdeps other (List.mem_cons_of_mem _ hother))
          hpromise.invariant hreturn
        refine ⟨hinvariant, hgrown.trans hgrown', hcode, fun hok other hother => ?_⟩
        rcases List.mem_cons.mp hother with rfl | hother
        · exact hgrown'.kept _ hloaded
        · exact hall hok other hother

/-- Every call keeps the invariant, and loads no more than its module needs. -/
theorem moduleLoad_spec (hnames : (registered.map Module.name).Nodup)
    (hacyclic : Acyclic registered) (hentries : ∀ path, env.sysfsAddEntry path = .ok)
    (hhonest : env.Honest registered) {fuel : Nat} (hloader : Invariant registered loader)
    (hreturn : moduleLoad env fuel name loader = .ok (result, next)) :
    Promise env registered name loader result next := by
  induction fuel generalizing name loader result next with
  | zero => simp [moduleLoad] at hreturn
  | succ fuel ih =>
      rw [moduleLoad] at hreturn
      split at hreturn
      next hany =>
        cases hreturn
        exact ⟨hloader, .refl, by simp, fun _ _ => any_name_iff.mp hany⟩
      next hany =>
        have hnot : name ∉ loader.names := fun hmem => hany (any_name_iff.mpr hmem)
        split at hreturn
        next hfind =>
          cases hreturn
          exact ⟨hloader, .refl, by simp, by simp⟩
        next module hfind =>
          obtain rfl : module.name = name := by simpa using List.find?_some hfind
          have hmodule := hloader.mem_registered (List.mem_of_find?_eq_some hfind)
          have hdepends : ∀ dep, Depends registered module.name dep ↔ dep ∈ module.deps :=
            fun _ => depends_iff hnames hmodule
          obtain ⟨⟨first, middle⟩, hdeps, hreturn⟩ := bind_eq_ok.mp hreturn
          obtain ⟨hmiddle, hgrown, hcode, hall⟩ := loadDeps_spec
            (fun dep loader result next _ hinvariant hload => ih hinvariant hload) hhonest
            (fun dep hdep => (hdepends dep).mpr hdep) hloader hdeps
          have hneeded := hgrown.mono fun _ => TransGen.to_reflTransGen
          dsimp only at hreturn
          split at hreturn
          next hfailed =>
            cases hreturn
            exact ⟨hmiddle, hneeded, fun hok => absurd hok hfailed, fun hcode' => absurd hcode' hcode⟩
          next hpassed =>
            have hready : ∀ dep, Depends registered module.name dep → dep ∈ middle.names :=
              fun dep hdep => hall (not_not.mp hpassed) dep ((hdepends dep).mp hdep)
            -- what its dependencies need is not the module itself
            have hstays : module.name ∉ middle.names := fun hmem =>
              (hgrown.new _ hmem).elim hnot (hacyclic _)
            split at hreturn
            next hfailed =>
              cases hreturn
              exact ⟨hmiddle.failed hready hfailed, ⟨hneeded.kept, hneeded.new⟩,
                fun hok => absurd hok hfailed, fun hcode' hinit => absurd hcode' (hinit _)⟩
            next hok =>
              rw [if_neg (by simp [hentries]), pure_eq_ok, Except.ok.injEq, Prod.mk.injEq] at hreturn
              obtain ⟨rfl, rfl⟩ := hreturn
              refine ⟨hmiddle.loaded (hmiddle.mem_modules hmodule hstays) hstays hready
                (not_not.mp hok), ⟨?_, ?_⟩, fun _ => List.mem_cons_self, by simp⟩
              · exact fun other hother => List.mem_cons_of_mem _ (hneeded.kept other hother)
              · intro other hother
                rcases List.mem_cons.mp hother with rfl | hother
                · exact .inr .refl
                · exact hneeded.new other hother

/-! ## Every call returns -/

/-- The loop returns if the calls for the dependencies do. -/
theorem loadDeps_returns {load : String → Loader → Except Fault (Result × Loader)}
    (hload : ∀ dep loader result next, Depends registered name dep → Invariant registered loader →
      load dep loader = .ok (result, next) → Promise env registered dep loader result next)
    (hreturns : ∀ dep loader, Depends registered name dep → Invariant registered loader →
      ∃ result next, load dep loader = .ok (result, next)) {deps : List String}
    (hdeps : ∀ dep ∈ deps, Depends registered name dep) (hloader : Invariant registered loader) :
    ∃ result next, loadDeps load deps loader = .ok (result, next) := by
  induction deps generalizing loader with
  | nil => exact ⟨.ok, loader, rfl⟩
  | cons dep rest ih =>
      have hdep := hdeps dep List.mem_cons_self
      obtain ⟨first, middle, hfirst⟩ := hreturns dep loader hdep hloader
      rw [loadDeps, hfirst, ok_bind]
      dsimp only
      split
      · exact ⟨first, middle, rfl⟩
      · exact ih (fun other hother => hdeps other (List.mem_cons_of_mem _ hother))
          (hload dep loader first middle hdep hloader hfirst).invariant

/-- The names of the calls that wait for one another are different names of registered
modules, so that the calls return as soon as the fuel is more than what is left of them. -/
theorem moduleLoad_returns (hnames : (registered.map Module.name).Nodup)
    (hacyclic : Acyclic registered) (hentries : ∀ path, env.sysfsAddEntry path = .ok)
    (hhonest : env.Honest registered) {fuel : Nat} {path : List String} (hpath : path.Nodup)
    (hregistered : path ⊆ registered.map Module.name)
    (hwait : ∀ caller ∈ path, TransGen (Depends registered) caller name)
    (hfuel : registered.length < fuel + path.length) (hloader : Invariant registered loader) :
    ∃ result next, moduleLoad env fuel name loader = .ok (result, next) := by
  induction fuel generalizing name loader path with
  | zero =>
      have hle := (List.subperm_of_subset hpath hregistered).length_le
      rw [List.length_map] at hle
      omega
  | succ fuel ih =>
      rw [moduleLoad]
      split
      · exact ⟨_, _, rfl⟩
      · split
        · exact ⟨_, _, rfl⟩
        next module hfind =>
          obtain rfl : module.name = name := by simpa using List.find?_some hfind
          have hmodule := hloader.mem_registered (List.mem_of_find?_eq_some hfind)
          have hnew : module.name ∉ path := fun hmem => hacyclic _ (hwait _ hmem)
          have hdeps : ∃ result next,
              loadDeps (moduleLoad env fuel) module.deps loader = .ok (result, next) := by
            have hdepends : ∀ dep ∈ module.deps, Depends registered module.name dep :=
              fun dep => (depends_iff hnames hmodule).mpr
            refine loadDeps_returns
              (fun dep loader result next _ => moduleLoad_spec hnames hacyclic hentries hhonest)
              (fun dep loader hdep => ?_) hdepends hloader
            refine ih (List.nodup_cons.mpr ⟨hnew, hpath⟩) ?_ ?_ ?_
            · exact List.cons_subset.mpr ⟨List.mem_map_of_mem hmodule, hregistered⟩
            · intro caller hcaller
              rcases List.mem_cons.mp hcaller with rfl | hcaller
              · exact .single hdep
              · exact (hwait caller hcaller).tail hdep
            · rw [List.length_cons]
              omega
          obtain ⟨first, middle, hdeps⟩ := hdeps
          rw [hdeps, ok_bind]
          dsimp only
          split_ifs <;> exact ⟨_, _, rfl⟩

/-! ## Runs -/

theorem registerAll_eq : registerAll registered = { modulesInit with modules := registered.reverse } := by
  have hfold : ∀ loader : Loader, registered.foldl moduleRegisterStatic loader =
      { loader with modules := registered.reverse ++ loader.modules } := by
    induction registered with
    | nil => exact fun _ => rfl
    | cons module rest ih =>
        intro loader
        rw [List.foldl_cons, ih, moduleRegisterStatic, List.reverse_cons, List.append_assoc,
          List.singleton_append]
  rw [registerAll, hfold, modulesInit, List.append_nil]

theorem invariant_registerAll : Invariant registered (registerAll registered) := by
  rw [registerAll_eq]
  exact ⟨List.reverse_perm registered, nofun, nofun, fun _ => rfl⟩

theorem Invariant.consistent (hnames : (registered.map Module.name).Nodup)
    (hacyclic : Acyclic registered) (hentries : ∀ path, env.sysfsAddEntry path = .ok)
    (hhonest : env.Honest registered) (hloader : Invariant registered loader) :
    Consistent env registered loader where
  inits := hloader.inits
  once name := by
    rw [hloader.successes]
    split <;> omega
  returns name := by
    have hcall : ∃ result next,
        moduleLoad env (registered.length + 1) name loader = .ok (result, next) :=
      moduleLoad_returns hnames hacyclic hentries hhonest List.nodup_nil (List.nil_subset _) nofun
        (Nat.lt_succ_self _) hloader
    obtain ⟨result, next, hreturn⟩ := hcall
    have hpromise := moduleLoad_spec hnames hacyclic hentries hhonest hloader hreturn
    exact ⟨result, next, hreturn,
      fun hok dep hdep => hpromise.invariant.loaded_with_deps (hpromise.ok hok) hdep⟩
  partition module hmodule := by
    rw [← List.count_append, hloader.perm.count_eq]
    exact List.count_eq_one_of_mem (List.Nodup.of_map _ hnames) hmodule

/-- Whatever calls are made, and whatever the `init` functions return short of the code for a
loaded module, every module is loaded after all it depends on. -/
theorem modules_consistent (hnames : (registered.map Module.name).Nodup)
    (hacyclic : Acyclic registered) (hentries : ∀ path, env.sysfsAddEntry path = .ok)
    (hhonest : env.Honest registered) (hreach : (system env registered).Reachable loader) :
    Consistent env registered loader := by
  have hinductive : (system env registered).Inductive (Invariant registered) := {
    init := fun loader hinit => hinit ▸ invariant_registerAll
    step := fun loader name next hloader ⟨_, hreturn⟩ =>
      (moduleLoad_spec hnames hacyclic hentries hhonest hloader hreturn).invariant }
  exact (hreach.invariant hinductive).consistent hnames hacyclic hentries hhonest

/-- Two modules, one of which needs the other. -/
def discAndPkfs : List Module := [⟨"disc_pio", []⟩, ⟨"pkfs", ["disc_pio"]⟩]

theorem depends_discAndPkfs {dep : String} (hdepends : Depends discAndPkfs name dep) :
    name = "pkfs" ∧ dep = "disc_pio" := by
  obtain ⟨module, hmodule, rfl, hdep⟩ := hdepends
  simp only [discAndPkfs, List.mem_cons, List.not_mem_nil, or_false] at hmodule
  rcases hmodule with rfl | rfl
  · exact absurd hdep List.not_mem_nil
  · exact ⟨rfl, List.mem_singleton.mp hdep⟩

theorem acyclic_discAndPkfs : Acyclic discAndPkfs := by
  intro name hcycle
  obtain ⟨second, hfirst, hrest⟩ := TransGen.head'_iff.mp hcycle
  obtain ⟨rfl, rfl⟩ := depends_discAndPkfs hfirst
  rcases hrest.cases_head with heq | ⟨third, hsecond, -⟩
  · simp at heq
  · simpa using (depends_discAndPkfs hsecond).1

/-- With `init` functions that do not fail, one call loads both. -/
theorem modules_consistent_after_load : ∃ loader, loader.names = ["pkfs", "disc_pio"] ∧
    (system ⟨fun _ _ => .ok, fun _ => .ok⟩ discAndPkfs).Reachable loader ∧
    Consistent ⟨fun _ _ => .ok, fun _ => .ok⟩ discAndPkfs loader := by
  obtain ⟨loader, hreturn, hloaded⟩ : ∃ loader, moduleLoad ⟨fun _ _ => .ok, fun _ => .ok⟩ 3 "pkfs"
      (registerAll discAndPkfs) = .ok (.ok, loader) ∧ loader.names = ["pkfs", "disc_pio"] :=
    ⟨_, rfl, rfl⟩
  have hreach : (system ⟨fun _ _ => .ok, fun _ => .ok⟩ discAndPkfs).Reachable loader :=
    .step (.init rfl) ⟨_, hreturn⟩
  exact ⟨loader, hloaded, hreach, modules_consistent (by decide) acyclic_discAndPkfs (fun _ => rfl)
    (fun _ _ _ _ => nofun) hreach⟩

/-- The `init` of `disc_pio` fails with `ERROR_MOD_LOADED`, and that of the other is called. -/
theorem module_loaded_without_dependency : (discAndPkfs.map Module.name).Nodup ∧
    Acyclic discAndPkfs ∧ ∃ env : Environment, (∀ path, env.sysfsAddEntry path = .ok) ∧
    ∃ loader, moduleLoad env 3 "pkfs" (registerAll discAndPkfs) = .ok (.ok, loader) ∧
      (system env discAndPkfs).Reachable loader ∧ "disc_pio" ∉ loader.names ∧
      ¬Consistent env discAndPkfs loader := by
  refine ⟨by decide, acyclic_discAndPkfs,
    ⟨fun name _ => if name = "disc_pio" then .modLoaded else .ok, fun _ => .ok⟩, fun _ => rfl, ?_⟩
  obtain ⟨loader, hreturn, hloaded, hcall⟩ : ∃ loader,
      moduleLoad ⟨fun name _ => if name = "disc_pio" then .modLoaded else .ok, fun _ => .ok⟩ 3 "pkfs"
        (registerAll discAndPkfs) = .ok (.ok, loader) ∧ "disc_pio" ∉ loader.names ∧
      ⟨"pkfs", [], .ok⟩ ∈ loader.inits := ⟨_, rfl, by decide, by decide⟩
  refine ⟨loader, hreturn, .step (.init rfl) ⟨_, hreturn⟩, hloaded, fun hconsistent => ?_⟩
  have hdepends : Depends discAndPkfs "pkfs" "disc_pio" := ⟨⟨"pkfs", ["disc_pio"]⟩, by decide⟩
  exact absurd (hconsistent.inits _ hcall _ hdepends) List.not_mem_nil

end PKernel.Modules
