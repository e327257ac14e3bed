import Theming.Compile.Components
import Theming.Inheritance

/-! Loading themes. A manager has a style engine and the theme that it loaded last. -/

namespace Theming

structure LoadedTheme where
  theme : Theme
  components : List CompiledComponent

namespace LoadedTheme

def name (loaded : LoadedTheme) : String := loaded.theme.name

def component? (loaded : LoadedTheme) (name : String) : Option CompiledComponent :=
  loaded.components.find? fun c => c.component == name

/-- The variants of a component. One that does not exist has none. -/
def variants (loaded : LoadedTheme) (component : String) : List CompiledVariant :=
  (loaded.component? component).elim [] CompiledComponent.variants

def variant? (loaded : LoadedTheme) (component name : String) : Option CompiledVariant :=
  (loaded.component? component).bind (·.variant? name)

end LoadedTheme

/-- What the compiled components look like as data. -/
def CompiledVariant.toValue (variant : CompiledVariant) : Value :=
  .object [
    ("variant", .text variant.variant),
    ("className", .text variant.className),
    ("parts", .object (variant.parts.map fun (part, name) => (part, .text name))),
    ("defaultProps", variant.defaultProps)]

def CompiledComponent.toValue (component : CompiledComponent) : Value :=
  .object [
    ("component", .text component.component),
    ("variants", .list (component.variants.map CompiledVariant.toValue))]

def LoadedTheme.toValue (loaded : LoadedTheme) : Value :=
  .object [
    ("name", .text loaded.name),
    ("components", .list (loaded.components.map CompiledComponent.toValue))]

def Theme.ofConfig (config : Value) : Except ThemeError Theme :=
  (Theme.read config).mapError (.misfit (Theme.reportedName config) .whole)

namespace LoadedTheme

variable {σ : Type} [StyleEngine σ]

/-- Merges a configuration with those of the pool that it is based on, and compiles it. -/
def ofConfig (config : Value) (pool : List Value) : Compile σ LoadedTheme := do
  if config.isNull then throw .noConfig
  let merged ← (config.inherit pool : Except _ _)
  let theme ← (Theme.ofConfig merged : Except _ _)
  return ⟨theme, ← theme.components.keys.mapM theme.compile⟩

end LoadedTheme

structure Manager (σ : Type) where
  engine : σ
  active : Option LoadedTheme

namespace Manager

variable {σ : Type} [StyleEngine σ]

/-- Loads a theme and makes it the active one. When that fails, the theme before it stays. -/
def load (manager : Manager σ) (config : Value) (pool : List Value) :
    Except ThemeError LoadedTheme × Manager σ :=
  let (result, engine) := (LoadedTheme.ofConfig config pool).run.run manager.engine
  let active := match result with
    | .ok loaded => some loaded
    | .error _ => manager.active
  (result, ⟨engine, active⟩)

def resolve (manager : Manager σ) (name : String) (theme : Theme) :
    Except ThemeError CompiledComponent × Manager σ :=
  let (result, engine) := (theme.compile name).run.run manager.engine
  (result, { manager with engine := engine })

end Manager

end Theming
