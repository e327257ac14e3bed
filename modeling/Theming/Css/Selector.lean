import Theming.Text.Search
import Theming.Text.Space

/-! Nested selectors. A key is a list of parts with commas between them. A part may hold
commas of its own inside the arguments of a functional pseudo-class. -/

namespace Theming.Selector

/-- The length of an argument list that opens here and ends at the first closing bracket. -/
def argumentsLength : List Char → Option Nat
  | '(' :: rest =>
    let inner := (rest.takeWhile (· != ')')).length
    if inner < rest.length then some (inner + 2) else none
  | _ => none

/-- The length of a name with arguments: as many characters other than spaces as possible, but
at least one, that an argument list follows. -/
def functionLength (text : List Char) : Option Nat :=
  let name := (text.takeWhile fun c => !isSpace c).length
  (List.range name).reverse.findSome? fun n =>
    (argumentsLength (text.drop (n + 1))).map (n + 1 + ·)

def runLength (text : List Char) : Nat := (text.takeWhile (· != ',')).length

/-- The length of a part that ends in the arguments of a functional pseudo-class. Of several
colons the last one counts. -/
def functionalLength (text : List Char) : Option Nat :=
  (List.range (runLength text)).reverse.findSome? fun n =>
    match text.drop n with
    | ':' :: rest => (functionLength rest).map (n + 1 + ·)
    | _ => none

def partLength (text : List Char) : Option Nat :=
  match functionalLength text with
  | some n => some n
  | none => if runLength text = 0 then none else some (runLength text)

/-- Changes every part of a key and keeps the commas between them. The first `skip` characters
belong to a part that has been changed already. -/
def mapPartsFrom (change : List Char → List Char) : (skip : Nat) → List Char → List Char
  | _, [] => []
  | skip + 1, _ :: rest => mapPartsFrom change skip rest
  | 0, c :: rest =>
    match partLength (c :: rest) with
    | some n => change ((c :: rest).take n) ++ mapPartsFrom change (n - 1) rest
    | none => c :: mapPartsFrom change 0 rest

def mapParts (change : List Char → List Char) (key : List Char) : List Char :=
  mapPartsFrom change 0 key

/-- A part under one parent: `&` stands for the parent, and a part without it is a descendant. -/
def under (parent part : List Char) : List Char :=
  if '&' ∈ part then Text.replace '&' parent part else parent ++ ' ' :: part

def nestChars (parents key : List Char) : List Char :=
  if parents.isEmpty then key
  else [','].intercalate ((Text.split ',' parents).map fun parent =>
    if parent.isEmpty then [] else mapParts (under parent) key)

def nest (parents key : String) : String :=
  String.ofList (nestChars parents.toList key.toList)

end Theming.Selector
