import Theming.Css.Stylesheet

/-! The arguments of the command line. -/

namespace Theming

inductive OutputFormat where
  | json
  | css
  deriving DecidableEq, Repr

def OutputFormat.ofName? (name : String) : Option OutputFormat :=
  if name = "json" then some .json else if name = "css" then some .css else none

inductive Command where
  | compile (theme : String) (pools : List String) (format : OutputFormat) (classPrefix : String)
  | check (theme : String) (pools : List String)
  deriving DecidableEq, Repr

inductive Request where
  | run (command : Command)
  /-- Only to show how the program is used, or its version. -/
  | inform
  deriving DecidableEq, Repr

/-- What has been given for a command so far. -/
structure Given where
  compiles : Bool
  isVerbose : Bool
  theme : Option String
  pools : List String
  format : Option OutputFormat
  classPrefix : Option String

namespace Given

def start (compiles : Bool) : Given := ⟨compiles, false, none, [], none, none⟩

def setVerbose (given : Given) : Option Given :=
  if given.isVerbose then none else some { given with isVerbose := true }

/-- There is one theme, and its path is not empty. -/
def addTheme (given : Given) (path : String) : Option Given :=
  if given.theme.isSome || path.isEmpty then none else some { given with theme := some path }

/-- Only pools may be given several times, and only when compiling there are other options. -/
def addOption (given : Given) (name value : String) : Option Given :=
  if name = "pool" then
    if value.isEmpty then none else some { given with pools := given.pools ++ [value] }
  else if name = "format" && given.compiles && given.format.isNone then do
    return { given with format := some (← OutputFormat.ofName? value) }
  else if name = "prefix" && given.compiles && given.classPrefix.isNone then
    some { given with classPrefix := some value }
  else none

def command? (given : Given) : Option Command :=
  given.theme.map fun theme =>
    if given.compiles then
      .compile theme given.pools (given.format.getD .json)
        (given.classPrefix.getD defaultClassPrefix)
    else .check theme given.pools

end Given

/-- Does an argument look like an option? A lone hyphen does not. -/
def isOption (arg : String) : Bool := arg.toList.head? == some '-' && arg ≠ "-"

def longOption? (arg : String) : Option (String × Option String) :=
  match arg.toList with
  | '-' :: '-' :: rest =>
    let name := rest.takeWhile (· != '=')
    let value := match rest.drop name.length with
      | _ :: value => some (String.ofList value)
      | [] => none
    some (String.ofList name, value)
  | _ => none

/-- Short flags behind one hyphen. A request for help ends them. -/
def shortFlags (given : Given) : List Char → Option (Given ⊕ Request)
  | [] => some (.inl given)
  | 'h' :: _ => some (.inr .inform)
  | 'v' :: rest => do shortFlags (← given.setVerbose) rest
  | _ :: _ => none

def commandArguments (given : Given) : List String → Option Request
  | [] => given.command?.map .run
  | "--" :: themes => ((themes.foldlM Given.addTheme given).bind Given.command?).map .run
  | arg :: rest =>
    if !isOption arg then do commandArguments (← given.addTheme arg) rest
    else match longOption? arg with
      | some ("verbose", none) => do commandArguments (← given.setVerbose) rest
      | some ("help", none) => some .inform
      | some ("verbose", some _) | some ("help", some _) => none
      | some (name, some value) => do commandArguments (← given.addOption name value) rest
      | some (name, none) =>
        match rest with
        | value :: rest =>
          if isOption value then none
          else do commandArguments (← given.addOption name value) rest
        | [] => none
      | none => do
        match ← shortFlags given (arg.toList.drop 1) with
        | .inl given => commandArguments given rest
        | .inr request => return request

def leadingFlags (isVerbose : Bool) : List Char → Option (Bool ⊕ Request)
  | [] => some (.inl isVerbose)
  | 'h' :: _ | 'V' :: _ => some (.inr .inform)
  | 'v' :: rest => if isVerbose then none else leadingFlags true rest
  | _ :: _ => none

/-- Reads the arguments of the program. The flags in front of the command may be repeated behind
it. -/
def programArguments (isVerbose : Bool) : List String → Option Request
  | [] => none
  | "compile" :: rest => commandArguments (.start true) rest
  | "check" :: rest => commandArguments (.start false) rest
  | ["help"] | ["help", "compile"] | ["help", "check"] | ["help", "help"] => some .inform
  | "--help" :: _ | "--version" :: _ => some .inform
  | "--verbose" :: rest => if isVerbose then none else programArguments true rest
  | arg :: rest =>
    match arg.toList with
    | '-' :: '-' :: _ => none
    | '-' :: flag :: flags => do
      match ← leadingFlags isVerbose (flag :: flags) with
      | .inl isVerbose => programArguments isVerbose rest
      | .inr request => return request
    | _ => none

def Request.ofArguments? (args : List String) : Option Request := programArguments false args

end Theming
