/-! The tokens of a YAML text. -/

namespace Theming.Yaml

inductive Token where
  | documentStart
  | documentEnd
  /-- A directive with a known version of the language. -/
  | version
  /-- A directive that lets a handle stand for the start of tags. -/
  | tagHandle (handle start : String)
  | blockListStart
  | blockMappingStart
  | blockEnd
  | flowListStart
  | flowListEnd
  | flowMappingStart
  | flowMappingEnd
  | blockEntry
  | flowEntry
  | key
  | value
  | anchor (id : Nat)
  /-- A node that has been given an anchor somewhere. -/
  | alias (id : Nat)
  /-- A tag without handle has the empty one. -/
  | tag (handle suffix : String)
  | scalar (plain : Bool) (text : String)
  deriving DecidableEq, Repr

end Theming.Yaml
