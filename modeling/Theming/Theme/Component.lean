import Theming.Merge
import Theming.Theme.Box

/-! Components and their variants. -/

namespace Theming

/-- A part with the value from which its source was read. Variants merge these values. -/
structure Part where
  raw : Value
  source : Source Box

namespace Part

def read : Reader Part := fun raw => (Box.readSource raw).map (⟨raw, ·⟩)

def merge (base overlay : Part) : Except Misfit Part := read (base.raw.deepMerge overlay.raw)

end Part

structure Variant where
  theming : Option (Source Box)
  parts : Table Part
  defaultProps : Option Value

def Variant.record : Record Variant where
  name := "Variant"
  fields := [
    .optional "theming" Box.readSource fun v x => { v with theming := x },
    .orDefault "parts" Part.read.table [] fun v x => { v with parts := x },
    .optional "defaultProps" Except.ok fun v x => { v with defaultProps := x }]
  blank := ⟨none, [], none⟩
  isPart := false

structure Component where
  parent : Option String
  default : Option Variant
  variants : Table Variant

def Component.record : Record Component where
  name := "Component"
  fields := [
    .optional "__extends" Reader.text fun c x => { c with parent := x },
    .optional "default" Variant.record.read fun c x => { c with default := x },
    .orDefault "variants" Variant.record.read.table [] fun c x => { c with variants := x }]
  blank := ⟨none, none, []⟩
  isPart := false

end Theming
