import Theming.CommandLine.Run

/-! The program: it reads the files that a command needs and prints the outcome. -/

namespace Theming

def FileFault.ofError : IO.Error → FileFault
  | .noFileOrDirectory .. => .notFound
  | .inappropriateType .. => .notDirectory
  | .permissionDenied .. => .denied
  | error => .other (toString error)

/-- Links that lead nowhere and devices are not among the configurations of a directory. -/
def isFileOrDirectory (entry : IO.FS.DirEntry) : IO Bool := do
  match ← entry.path.metadata.toBaseIO with
  | .ok found => return found.type == .file || found.type == .dir
  | .error _ => return false

/-- Reads a file, or a directory with all documents in it. Other files are not needed. -/
partial def readTree (path : String) : IO FileTree := do
  let place := (← IO.currentDir) / path
  if ← place.isDir then
    match ← place.readDir.toBaseIO with
    | .ok entries =>
      let entries ← (← entries.toList.filterM isFileOrDirectory).mapM fun entry => do
        return (entry.fileName, ← readTree (Path.join path entry.fileName))
      return .directory entries none
    | .error error => return .directory [] (some (FileFault.ofError error))
  else if (Format.ofPath? path).isNone then return .file (.ok .empty)
  else
    match ← (IO.FS.readBinFile place).toBaseIO with
    | .ok content => return .file (.ok content)
    | .error error => return .file (.error (FileFault.ofError error))

def readPath (path : String) : IO (Except FileFault FileTree) := do
  if path.isEmpty then return .error .notFound
  return .ok (← readTree path)

end Theming

open Theming

def main (args : List String) : IO UInt32 := do
  let paths := match Request.ofArguments? args with
    | some (.run command) => command.paths
    | _ => []
  let found ← paths.mapM fun path => return (path, ← readPath path)
  let result := outcome (.ofList found) args
  IO.print result.stdout
  IO.eprint result.stderr
  return UInt32.ofNat result.code
