import PKernel.Machine

/-! # The module loader

`module.c`: static modules are registered in one list and move to another when they are
loaded, after the modules they depend on. The `init` functions and `sysfs_add_entry` are
parameters, and the calls of `init` and `free` are written down.
-/

namespace PKernel.Modules

/-- What a function of the loader, of a module or of `sysfs` returns: `ERROR_OK`,
`ERROR_MOD_LOADED`, `ERROR_MOD_NONE` or another code. -/
inductive Result where
  | ok
  | modLoaded
  | modNone
  | failed (code : Nat)
deriving DecidableEq, Repr

/-- `module_t`. Its functions are known by its name. -/
structure Module where
  name : String
  deps : List String
deriving DecidableEq, Repr

/-- A call of a module's `init`, and the names in the loaded list at that moment. -/
structure InitCall where
  name : String
  loaded : List String
  result : Result
deriving DecidableEq, Repr

/-- The two lists from their heads on, and the calls so far, the last one first. -/
structure Loader where
  loaded : List Module
  modules : List Module
  inits : List InitCall
  frees : List String
deriving DecidableEq, Repr

/-- What the loader calls. An `init` may return anything at any time: `init name n` is what
it returns when `n` calls of `init` came before. -/
structure Environment where
  init : String → Nat → Result
  sysfsAddEntry : String → Result

/-- `modules_init`. -/
def modulesInit : Loader := ⟨[], [], [], []⟩

/-- `module_register_static`. -/
def moduleRegisterStatic (loader : Loader) (module : Module) : Loader :=
  { loader with modules := module :: loader.modules }

namespace Loader

/-- The names in the loaded list. -/
def names (loader : Loader) : List String := loader.loaded.map Module.name

/-- `module->init()`. -/
def callInit (env : Environment) (loader : Loader) (module : Module) : Result × Loader :=
  let result := env.init module.name loader.inits.length
  (result, { loader with inits := ⟨module.name, loader.names, result⟩ :: loader.inits })

/-- `module->free()`. -/
def callFree (loader : Loader) (module : Module) : Loader :=
  { loader with frees := module.name :: loader.frees }

/-- A module goes from its list to the head of the loaded list. -/
def markLoaded (loader : Loader) (module : Module) : Loader :=
  { loader with loaded := module :: loader.loaded, modules := loader.modules.erase module }

end Loader

/-- The loop of `module_load` over the dependencies; the result is `ok` at its end. -/
def loadDeps (load : String → Loader → Except Fault (Result × Loader)) :
    List String → Loader → Except Fault (Result × Loader)
  | [], loader => .ok (.ok, loader)
  | dep :: rest, loader => do
      let (result, loader) ← load dep loader
      if result ≠ .ok ∧ result ≠ .modLoaded then return (result, loader)
      loadDeps load rest loader

/-- `module_load`, which calls itself for the dependencies. -/
def moduleLoad (env : Environment) : Nat → String → Loader → Except Fault (Result × Loader)
  | 0, _, _ => .error .nontermination
  | fuel + 1, name, loader => do
      if loader.loaded.any fun module => module.name == name then return (.modLoaded, loader)
      match loader.modules.find? fun module => module.name == name with
      | none => return (.modNone, loader)
      | some module =>
          let (result, loader) ← loadDeps (moduleLoad env fuel) module.deps loader
          if result ≠ .ok then return (result, loader)
          let (result, loader) := loader.callInit env module
          if result ≠ .ok then return (result, loader)
          let result := env.sysfsAddEntry ("module/" ++ module.name)
          if result ≠ .ok then return (result, loader.callFree module)
          return (.ok, loader.markLoaded module)

end PKernel.Modules
