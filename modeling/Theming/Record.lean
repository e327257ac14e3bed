import Theming.Misfit

/-! Records inside configurations. They are written as objects, or as lists of their fields. -/

namespace Theming

/-- A field of records `ρ`, with what reading its value does to a record. -/
structure Field (ρ : Type) where
  key : String
  read : Value → ρ → Except Misfit ρ
  /-- Does a list of the fields fit without this one? -/
  hasDefault : Bool

namespace Field

variable {ρ α : Type}

/-- A field that may be absent from objects but not from lists. -/
def optional (key : String) (read : Reader α) (set : ρ → Option α → ρ) : Field ρ where
  key := key
  read value record := (read.optional value).map (set record)
  hasDefault := false

def orDefault (key : String) (read : Reader α) (default : α) (set : ρ → α → ρ) : Field ρ where
  key := key
  read value record := (read.orDefault default value).map (set record)
  hasDefault := true

end Field

structure Record (ρ : Type) where
  name : String
  fields : List (Field ρ)
  blank : ρ
  /-- Is this a record inside a style set? -/
  isPart : Bool

namespace Record

variable {ρ : Type}

/-- Reads the entries in their order. Those that belong to no field are ignored. -/
def readEntries (record : Record ρ) (entries : List (String × Value)) : Except Misfit ρ :=
  entries.foldlM (fun result (key, value) =>
    match record.fields.find? fun field => field.key == key with
    | some field => field.read value result
    | none => pure result) record.blank

/-- Reads one item after the other into the fields that are left. -/
def readItems (record : Record ρ) (length : Nat) (result : ρ) :
    List (Field ρ) → List Value → Except Misfit ρ
  | [], [] => .ok result
  | [], extra =>
    let length := length + extra.length
    .error (if record.isPart then .tooLongPart length record.fields.length else .tooLong length)
  | field :: fields, [] =>
    if field.hasDefault then readItems record (length + 1) result fields []
    else .error (.tooShort length record.name record.fields.length)
  | field :: fields, item :: items => do
    readItems record (length + 1) (← field.read item result) fields items

def read (record : Record ρ) : Reader ρ
  | .object entries => record.readEntries entries
  | .list items => record.readItems 0 record.blank record.fields items
  | value => .error (.wrongType value ("struct " ++ record.name))

end Record

end Theming
