import Theming.Error
import Theming.Merge
import Theming.Trail

/-! Themes that are based on others. A configuration is laid over the one it is based on, which
is found by its name in a pool of configurations. -/

namespace Theming

def requiredKeys : List String := ["name", "components", "version", "globals", "sets"]

namespace Value

/-- The name of a configuration, which is empty if it has none. -/
def configName (config : Value) : String := ((config.field? "name").bind text?).getD ""

/-- An empty name counts as missing. -/
def hasRequired (config : Value) (key : String) : Bool :=
  match config.field? key with
  | none => false
  | some (.text s) => key ≠ "name" || !s.isEmpty
  | some _ => true

def missingKeys (config : Value) : List String :=
  requiredKeys.filter fun key => !config.hasRequired key

def validate (config : Value) : Except ThemeError Unit :=
  if config.missingKeys.isEmpty then .ok ()
  else
    let name := if config.configName.isEmpty then "config" else config.configName
    .error (.incomplete name config.missingKeys)

def baseName? (config : Value) : Option String :=
  ((config.field? "basedOn").bind text?).filter fun name => !name.isEmpty

/-- The configuration of the pool that this one is based on. One that is not there is ignored. -/
def base? (config : Value) (pool : List Value) : Option Value :=
  config.baseName?.bind fun name => pool.find? fun other => other.configName == name

theorem configName_base?_mem {config base : Value} {pool : List Value}
    (h : config.base? pool = some base) : base.configName ∈ pool.map configName := by
  obtain ⟨name, _, hf⟩ := Option.bind_eq_some_iff.1 h
  exact List.mem_map_of_mem (List.mem_of_find?_eq_some hf)

/-- Merges a configuration with all those that it is based on, behind the names of the trail. -/
def inheritFrom (pool : List Value) (trail : Trail) (config : Value) :
    Except ThemeError Value := do
  config.validate
  if _seen : config.configName ∈ trail then
    throw (.cycle .bases (trail ++ [config.configName]))
  else
    match _found : config.base? pool with
    | none => return config
    | some base =>
      return (← inheritFrom pool (trail ++ [config.configName]) base).mergeConfigs config
termination_by Trail.ahead (pool.map configName) trail config.configName
decreasing_by exact Trail.ahead_append_lt _seen (configName_base?_mem _found)

/-- Checks a configuration and merges it with all those that it is based on. -/
def inherit (config : Value) (pool : List Value) : Except ThemeError Value :=
  inheritFrom pool [] config

end Value

end Theming
