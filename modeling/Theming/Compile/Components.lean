import Theming.Compile.Boxes
import Theming.Css.Stylesheet

/-! Compiled components: the class names of their variants and parts. -/

namespace Theming

def defaultVariant : String := "default"

structure CompiledVariant where
  variant : String
  /-- The class of the box, which is empty if the box has no styles. -/
  className : String
  parts : Table String
  defaultProps : Value

structure CompiledComponent where
  component : String
  variants : List CompiledVariant

namespace CompiledComponent

def variant? (component : CompiledComponent) (name : String) : Option CompiledVariant :=
  component.variants.find? fun v => v.variant == name

end CompiledComponent

namespace CompiledVariant

def onto (variant base : CompiledVariant) : CompiledVariant where
  variant := base.variant
  className := variant.className
  parts := base.parts.putAll variant.parts
  defaultProps := base.defaultProps.deepMerge variant.defaultProps

/-- Lays a variant over the one of its name, or adds it at the end. -/
def layer (variant : CompiledVariant) : List CompiledVariant → List CompiledVariant
  | [] => [variant]
  | base :: rest =>
    if base.variant = variant.variant then variant.onto base :: rest
    else base :: layer variant rest

def layerAll (base variants : List CompiledVariant) : List CompiledVariant :=
  variants.foldl (fun layered variant => variant.layer layered) base

end CompiledVariant

/-- Compiling asks a style engine for class names. What it has been asked for stays when
compiling fails. -/
abbrev Compile (σ : Type) := ExceptT ThemeError (StateM σ)

namespace Compile

variable {σ : Type} [StyleEngine σ]

/-- The class of a style map. An empty map needs none. -/
def className (styles : Styles) : Compile σ String := do
  if styles.isEmpty then return ""
  else modifyGet fun engine => StyleEngine.emitClass engine [styles]

end Compile

namespace Theme

variable {σ : Type} [StyleEngine σ]

def mergedParts (theme : Theme) (defaults overrides : Table Part) :
    Except ThemeError (Table (Source Box)) := do
  let parts ← overrides.foldlM (fun parts (name, part) =>
    match Table.find? parts name with
    | none => pure (Table.put parts name part)
    | some base =>
      ((base.merge part).map (Table.put parts name)).mapError
        (.misfit theme.name (.mergedPart name))) defaults
  return parts.map fun (name, part) => (name, part.source)

/-- Compiles a variant. There is none without a box, or if its box is a reference that leads
nowhere. -/
def compileVariant (theme : Theme) (name : String) (variant : Variant)
    (parts : Table (Source Box)) (context : BoxContext) :
    Compile σ (Option CompiledVariant) := do
  let some theming := variant.theming | return none
  let some styles ← (theme.boxCss context theming : Except _ _) | return none
  let className ← Compile.className styles
  let classes ← parts.mapM fun (part, source) => do
    let styles ← (theme.boxCss (.parts parts) source : Except _ _)
    return (part, ← Compile.className (styles.getD []))
  let props ← match variant.defaultProps with
    | some props => (Globals.resolveProps theme.globals props : Except _ _)
    | none => pure (.object [])
  return some ⟨name, className, classes, props⟩

def ownVariants (theme : Theme) (name : String) (component : Component) :
    Compile σ (List CompiledVariant) := do
  let defaults := component.default.elim [] Variant.parts
  let first ← match component.default with
    | some variant => do
      let parts ← (theme.mergedParts defaults [] : Except _ _)
      theme.compileVariant defaultVariant variant parts .global
    | none => pure none
  let named := component.variants.filter fun entry => entry.1 ≠ defaultVariant
  let others ← named.mapM fun (variantName, variant) => do
    let parts ← (theme.mergedParts defaults variant.parts : Except _ _)
    theme.compileVariant variantName variant parts (.component name)
  return first.toList ++ others.filterMap id

/-- Compiles a component behind those of the trail. It is laid over the one that it extends, and
has no variants if it does not exist. -/
def compileFrom (theme : Theme) (trail : Trail) (name : String) :
    Compile σ CompiledComponent :=
  match _found : theme.components.find? name with
  | none => pure ⟨name, []⟩
  | some component =>
    if _seen : name ∈ trail then throw (.cycle .components (trail ++ [name]))
    else do
      let inherited ← match component.parent with
        | some parent =>
          CompiledComponent.variants <$> theme.compileFrom (trail ++ [name]) (referenceName parent)
        | none => pure []
      let own ← theme.ownVariants name component
      return ⟨name, CompiledVariant.layerAll inherited own⟩
termination_by Trail.unmet theme.components.keys trail
decreasing_by exact Trail.unmet_append_lt (Table.mem_keys_of_find? _found) _seen

def compile (theme : Theme) (name : String) : Compile σ CompiledComponent :=
  theme.compileFrom [] name

end Theme

end Theming
