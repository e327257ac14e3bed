import Theming.Files.Tree
import Theming.Format

/-! Pools of configurations that others may be based on. They are found by the names that they
give themselves. -/

namespace Theming

structure PoolEntry where
  config : Value
  /-- The file that the configuration comes from. -/
  origin : Option String

abbrev Pool := Table PoolEntry

inductive UnusableFile where
  | unknownExtension
  | notReadable (cause : ThemeError)
  | noName
  deriving Repr

def UnusableFile.message : UnusableFile → String
  | unknownExtension => "unrecognized config extension"
  | notReadable cause => cause.message
  | noName => "config has no name"

inductive PoolError where
  | file (path : String) (fault : FileFault)
  | unusable (path : String) (cause : UnusableFile)
  | notDirectory (path : String)
  | duplicate (name first second : String)
  deriving Repr

def PoolError.message : PoolError → String
  | file path fault => "failed to read " ++ path ++ ": " ++ fault.message
  | unusable path cause => "failed to load theme config " ++ path ++ ": " ++ cause.message
  | notDirectory path => "not a directory: " ++ path
  | duplicate name first second =>
    "theme \x27" ++ name ++ "\x27 is declared twice: " ++ first ++ " and " ++ second

/-- What is left of a pool after something has been added, and whether that failed. -/
abbrev Gather := ExceptT PoolError (StateM Pool)

namespace Pool

def configs (pool : Pool) : List Value := pool.map fun entry => entry.2.config

def get? (pool : Pool) (name : String) : Option Value := (pool.find? name).map PoolEntry.config

def origin? (pool : Pool) (name : String) : Option String := (pool.find? name).bind PoolEntry.origin

/-- The name that a configuration gives itself. -/
def nameOf? (config : Value) : Option String := (config.field? "name").bind Value.text?

/-- Adds a configuration in the place of any other of its name. One without a name is ignored. -/
def add (pool : Pool) (config : Value) : Pool :=
  match nameOf? config with
  | some name => pool.put name ⟨config, none⟩
  | none => pool

def addText (pool : Pool) (format : Format) (text : String) : Except ThemeError Pool :=
  (format.read text).map pool.add

def readFile (files : Files) (path : String) : Except PoolError (String × Value) := do
  let some format := Format.ofPath? path | throw (.unusable path .unknownExtension)
  let text ← (files.readText path).mapError (.file path)
  let config ← (format.read text).mapError fun cause => .unusable path (.notReadable cause)
  match nameOf? config with
  | some name => return (name, config)
  | none => throw (.unusable path .noName)

/-- Adds the configuration in a file. Two files must not have configurations of one name. -/
def addFile (files : Files) (path : String) : Gather Unit := do
  let (name, config) ← (readFile files path : Except _ _)
  match (← get).origin? name with
  | some first => throw (.duplicate name first path)
  | none => modify fun pool => pool.put name ⟨config, path⟩

/-- The names of an entry of a directory that is a configuration file itself. -/
def ownFile (name : String) : FileTree → List (List String)
  | .file _ => if (Format.ofFileName? name).isSome then [[name]] else []
  | .directory .. => []

mutual

/-- The names that lead from a directory to each configuration file below it, or to the first
directory that cannot be listed, with the reason. -/
def configFiles : FileTree → Except (List String × FileFault) (List (List String))
  | .file _ => .ok []
  | .directory entries fault => do
    let found ← configFilesOf entries
    match fault with
    | some fault => throw ([], fault)
    | none => return found
termination_by structural tree => tree

def configFilesOf :
    List (String × FileTree) → Except (List String × FileFault) (List (List String))
  | [] => .ok []
  | (name, tree) :: rest => do
    let below ← (configFiles tree).mapError fun (names, fault) => (name :: names, fault)
    return ownFile name tree ++ below.map (name :: ·) ++ (← configFilesOf rest)
termination_by structural entries => entries

end

/-- The paths of the configuration files in a directory, in the order of their names. -/
def configPaths (directory : String) (tree : FileTree) : Except PoolError (List String) :=
  match configFiles tree with
  | .ok found => .ok ((found.mergeSort fun a b => (compare a b).isLE).map fun names =>
      names.foldl Path.join directory)
  | .error (names, fault) => .error (.file (names.foldl Path.join directory) fault)

/-- Adds all configuration files in a directory and in the directories below it. When one of them
fails, those before it stay. -/
def addDirectory (files : Files) (path : String) : Gather Unit :=
  match files path with
  | .ok (.directory entries fault) => do
    let paths ← (configPaths path (.directory entries fault) : Except _ _)
    paths.forM (addFile files)
  | _ => throw (.notDirectory path)

end Pool

end Theming
