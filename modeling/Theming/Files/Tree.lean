import Theming.Table
import Theming.Files.Path

/-! Files and directories. -/

namespace Theming

inductive FileFault where
  | notFound
  | notDirectory
  | isDirectory
  | denied
  /-- The bytes of a file are not UTF-8. -/
  | notText
  | other (message : String)
  deriving DecidableEq, Repr

def FileFault.message : FileFault → String
  | notFound => "No such file or directory (os error 2)"
  | notDirectory => "Not a directory (os error 20)"
  | isDirectory => "Is a directory (os error 21)"
  | denied => "Permission denied (os error 13)"
  | notText => "stream did not contain valid UTF-8"
  | other message => message

inductive FileTree where
  | file (content : Except FileFault ByteArray)
  /-- Listing gives the entries in turn. It may fail at the start or behind some of them. -/
  | directory (entries : List (String × FileTree)) (fault : Option FileFault)

abbrev Files := String → Except FileFault FileTree

namespace FileTree

def empty : FileTree := .directory [] none

/-- Makes a file, or an empty directory, at the end of some names. Directories that are missing
on the way are made too. -/
def write (content : Option ByteArray) (tree : FileTree) : List String → FileTree
  | [] =>
    match content, tree with
    | some bytes, _ => .file (.ok bytes)
    | none, .directory entries fault => .directory entries fault
    | none, .file _ => empty
  | name :: rest =>
    let (entries, fault) := match tree with
      | .directory entries fault => (entries, fault)
      | .file _ => ([], none)
    let inside := write content ((Table.find? entries name).getD empty) rest
    .directory (Table.put entries name inside) fault

/-- What is found at the end of names, from a tree that stands inside the given ones. -/
def walk (outer : List FileTree) (tree : FileTree) : List String → Except FileFault FileTree
  | [] => .ok tree
  | name :: rest =>
    match tree with
    | .file _ => .error .notDirectory
    | .directory entries _ =>
      if name.isEmpty || name = "." then walk outer tree rest
      else if name = ".." then
        match outer with
        | [] => .error .notFound
        | parent :: outer => walk outer parent rest
      else match Table.find? entries name with
        | some found => walk (tree :: outer) found rest
        | none => .error .notFound

mutual

/-- A tree and all trees in it, with their paths. -/
def withPaths (path : String) (tree : FileTree) : List (String × FileTree) :=
  match tree with
  | .file content => [(path, .file content)]
  | .directory entries fault => (path, .directory entries fault) :: withPathsIn path entries
termination_by structural tree

def withPathsIn (path : String) : List (String × FileTree) → List (String × FileTree)
  | [] => []
  | (name, tree) :: rest => withPaths (Path.join path name) tree ++ withPathsIn path rest
termination_by structural entries => entries

end

/-- Relative paths lead into the tree. Nothing else can be reached. -/
def files (tree : FileTree) : Files := fun path =>
  match path.toList with
  | [] | '/' :: _ => .error .notFound
  | chars => tree.walk [] ((Text.split '/' chars).map String.ofList)

end FileTree

namespace Files

def ofList (found : List (String × Except FileFault FileTree)) : Files := fun path =>
  let reached := found.flatMap fun (path, result) =>
    match result with
    | .error fault => [(path, Except.error fault)]
    | .ok tree => (tree.withPaths path).map fun (path, tree) => (path, .ok tree)
  (Table.find? reached path).getD (.error .notFound)

def isDirectory (files : Files) (path : String) : Bool :=
  match files path with
  | .ok (.directory ..) => true
  | _ => false

def readText (files : Files) (path : String) : Except FileFault String := do
  match ← files path with
  | .directory .. => throw .isDirectory
  | .file content =>
    match String.fromUTF8? (← content) with
    | some text => return text
    | none => throw .notText

end Files

end Theming
