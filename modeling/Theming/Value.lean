import Theming.Decimal.Layout
import Theming.Table

/-! The untyped data of a configuration document. -/

namespace Theming

/-- Integers and doubles stay apart: `1` and `1.0` are two numbers. -/
inductive Number where
  | integer (n : Int)
  | real (x : Binary64)
  deriving DecidableEq, Repr

namespace Number

/-- The integers that fit into 64 bits, signed or unsigned. -/
def isWord (n : Int) : Bool := -0x8000000000000000 ≤ n && n < 0x10000000000000000

def text : Number → String
  | .integer n => toString n
  | .real x => DecimalLayout.standard.text x

end Number

/-- Data as it comes out of a document. The entries of an object are in document order. -/
inductive Value where
  | null
  | flag (b : Bool)
  | number (n : Number)
  | text (s : String)
  | list (items : List Value)
  | object (entries : List (String × Value))
  deriving Repr, Inhabited

namespace Value

def isNull : Value → Bool
  | .null => true
  | _ => false

def text? : Value → Option String
  | .text s => some s
  | _ => none

/-- What an object holds under a key. Other values hold nothing. -/
def field? : Value → String → Option Value
  | .object entries, key => Table.find? entries key
  | _, _ => none

def flagText (b : Bool) : String := if b then "true" else "false"

/-- The text that a value stands for inside a text. Null and structured values stand for none. -/
def scalarText : Value → String
  | .text s => s
  | .number n => n.text
  | .flag b => flagText b
  | .null | .list _ | .object _ => ""

end Value

end Theming
