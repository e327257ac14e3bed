/-! What can be wrong with a JSON text, and where. -/

namespace Theming.Json

inductive Cause where
  | valueEnds
  | listEnds
  | objectEnds
  | textEnds
  | noValue
  | noWord
  | noColon
  | noListEnd
  | noObjectEnd
  | keyIsNoText
  | trailingComma
  | trailingCharacters
  | badNumber
  | hugeNumber
  | badEscape
  | controlCharacter
  | loneSurrogate
  | halfSurrogatePair
  | tooDeep
  deriving DecidableEq, Repr

def Cause.message : Cause → String
  | valueEnds => "EOF while parsing a value"
  | listEnds => "EOF while parsing a list"
  | objectEnds => "EOF while parsing an object"
  | textEnds => "EOF while parsing a string"
  | noValue => "expected value"
  | noWord => "expected ident"
  | noColon => "expected `:`"
  | noListEnd => "expected `,` or `]`"
  | noObjectEnd => "expected `,` or `\x7d`"
  | keyIsNoText => "key must be a string"
  | trailingComma => "trailing comma"
  | trailingCharacters => "trailing characters"
  | badNumber => "invalid number"
  | hugeNumber => "number out of range"
  | badEscape => "invalid escape"
  | controlCharacter => "control character (\\u0000-\\u001F) found while parsing a string"
  | loneSurrogate => "lone leading surrogate in hex escape"
  | halfSurrogatePair => "unexpected end of hex escape"
  | tooDeep => "recursion limit exceeded"

/-- A cause with the number of bytes behind the place where it showed. -/
structure Stop where
  cause : Cause
  unread : Nat

def byteCount (text : List Char) : Nat := text.foldl (fun count c => count + c.utf8Size) 0

namespace Stop

def atEnd (cause : Cause) : Stop := ⟨cause, 0⟩

def on (cause : Cause) (text : List Char) : Stop := ⟨cause, byteCount text - 1⟩

/-- What stood before the text does not fit. -/
def before (cause : Cause) (text : List Char) : Stop := ⟨cause, byteCount text⟩

/-- The text does not fit, or it is over and then has another cause. -/
def onOrEnd (cause atEnd : Cause) (text : List Char) : Stop :=
  if text.isEmpty then .atEnd atEnd else .on cause text

end Stop

/-- A cause with the line and the column, in bytes, up to which the text was looked at. -/
structure Fault where
  cause : Cause
  line : Nat
  column : Nat
  deriving DecidableEq, Repr

def Fault.message (fault : Fault) : String :=
  fault.cause.message ++ " at line " ++ toString fault.line ++ " column " ++ toString fault.column

def position : (bytes line column : Nat) → List Char → Nat × Nat
  | 0, line, column, _ => (line, column)
  | _, line, column, [] => (line, column)
  | bytes, line, column, c :: rest =>
    if c = '\n' then position (bytes - 1) (line + 1) 0 rest
    else position (bytes - c.utf8Size) line (column + min bytes c.utf8Size) rest

def Stop.fault (stop : Stop) (text : List Char) : Fault :=
  let (line, column) := position (byteCount text - stop.unread) 1 0 text
  ⟨stop.cause, line, column⟩

end Theming.Json
