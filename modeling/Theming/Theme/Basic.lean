import Theming.Theme.Component

/-! Themes as a whole. -/

namespace Theming

structure Sets where
  colorSets : Table (StyleSet .color)
  borderSets : Table (StyleSet .border)
  fontSets : Table (StyleSet .font)
  boxSets : Table Box

namespace Sets

def empty : Sets := ⟨[], [], [], []⟩

def record : Record Sets where
  name := "Sets"
  fields := [
    .orDefault "colorSets" (Reader.table StyleSet.read) [] fun s x => { s with colorSets := x },
    .orDefault "borderSets" (Reader.table StyleSet.read) [] fun s x => { s with borderSets := x },
    .orDefault "fontSets" (Reader.table StyleSet.read) [] fun s x => { s with fontSets := x },
    .orDefault "boxSets" Box.read.table [] fun s x => { s with boxSets := x }]
  blank := empty
  isPart := false

def table (sets : Sets) : (kind : SetKind) → Table (StyleSet kind)
  | .color => sets.colorSets
  | .border => sets.borderSets
  | .font => sets.fontSets

end Sets

structure Assets where
  baseUrl : Option String
  deriving DecidableEq, Repr

def Assets.record : Record Assets where
  name := "Assets"
  fields := [.optional "baseUrl" Reader.text fun a x => { a with baseUrl := x }]
  blank := ⟨none⟩
  isPart := false

structure Theme where
  name : String
  version : Scalar
  basedOn : Option String
  globals : Value
  sets : Sets
  components : Table Component
  info : Value
  assets : Option Assets

namespace Theme

def record : Record Theme where
  name := "ThemingConfig"
  fields := [
    { key := "name", hasDefault := false
      read := fun value t => (Reader.text value).map fun x => { t with name := x } },
    { key := "version", hasDefault := false
      read := fun value t => (Scalar.read value).map fun x => { t with version := x } },
    .optional "basedOn" Reader.text fun t x => { t with basedOn := x },
    .orDefault "globals" Except.ok .null fun t x => { t with globals := x },
    .orDefault "sets" Sets.record.read .empty fun t x => { t with sets := x },
    .orDefault "components" Component.record.read.table [] fun t x => { t with components := x },
    .orDefault "meta" Except.ok .null fun t x => { t with info := x },
    .optional "assets" Assets.record.read fun t x => { t with assets := x }]
  blank := ⟨"", .text "", none, .null, .empty, [], .null, none⟩
  isPart := false

/-- The first field without default that an object lacks. -/
def missingField? (value : Value) : Option String :=
  match value with
  | .object entries => ["name", "version"].find? fun key => (Table.find? entries key).isNone
  | _ => none

/-- Fields that do not fit are reported before missing ones. -/
def read : Reader Theme := fun value => do
  let theme ← record.read value
  match missingField? value with
  | some key => throw (.missingField key)
  | none => return theme

def reportedName (value : Value) : String := ((value.field? "name").bind Value.text?).getD "config"

end Theme

end Theming
