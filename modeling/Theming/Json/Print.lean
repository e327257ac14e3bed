import Theming.Value

/-! The JSON text of values, on one line or indented. -/

namespace Theming.Json

def hexPair (n : Nat) : List Char := [Nat.digitChar (n / 16), Nat.digitChar (n % 16)]

/-- Quotes, backslashes and the characters below space are escaped, all others stand raw. -/
def escape (c : Char) : List Char :=
  match c with
  | '"' => ['\\', '"']
  | '\\' => ['\\', '\\']
  | '\n' => ['\\', 'n']
  | '\r' => ['\\', 'r']
  | '\t' => ['\\', 't']
  | '\x08' => ['\\', 'b']
  | '\x0c' => ['\\', 'f']
  | c => if c.toNat < 0x20 then '\\' :: 'u' :: '0' :: '0' :: hexPair c.toNat else [c]

def quote (text : String) : String :=
  String.ofList ('"' :: text.toList.flatMap escape ++ ['"'])

mutual

/-- The text of a value on one line, without spaces. -/
def compact : Value → String
  | .null => "null"
  | .flag b => Value.flagText b
  | .number n => n.text
  | .text s => quote s
  | .list items => "[" ++ compactItems "" items ++ "]"
  | .object entries => "\x7b" ++ compactEntries "" entries ++ "\x7d"
termination_by structural value => value

def compactItems (separator : String) : List Value → String
  | [] => ""
  | item :: rest => separator ++ compact item ++ compactItems "," rest
termination_by structural items => items

def compactEntries (separator : String) : List (String × Value) → String
  | [] => ""
  | (key, value) :: rest =>
    separator ++ quote key ++ ":" ++ compact value ++ compactEntries "," rest
termination_by structural entries => entries

end

def newLine (level : Nat) : String := String.ofList ('\n' :: List.replicate (2 * level) ' ')

mutual

/-- The text of a value with every item and entry on a line of its own. -/
def indented (level : Nat) : Value → String
  | .list [] => "[]"
  | .list items => "[" ++ indentedItems (level + 1) "" items ++ newLine level ++ "]"
  | .object [] => "\x7b\x7d"
  | .object entries => "\x7b" ++ indentedEntries (level + 1) "" entries ++ newLine level ++ "\x7d"
  | .null => "null"
  | .flag b => Value.flagText b
  | .number n => n.text
  | .text s => quote s
termination_by structural value => value

def indentedItems (level : Nat) (separator : String) : List Value → String
  | [] => ""
  | item :: rest =>
    separator ++ newLine level ++ indented level item ++ indentedItems level "," rest
termination_by structural items => items

def indentedEntries (level : Nat) (separator : String) : List (String × Value) → String
  | [] => ""
  | (key, value) :: rest =>
    separator ++ newLine level ++ quote key ++ ": " ++ indented level value ++
      indentedEntries level "," rest
termination_by structural entries => entries

end

end Theming.Json
