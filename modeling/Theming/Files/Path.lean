import Theming.Text.Search

/-! The texts of paths. -/

namespace Theming.Path

/-- The names between the slashes. Empty ones and single dots stand for nothing. -/
def names (path : String) : List String :=
  ((Text.split '/' path.toList).map String.ofList).filter fun name => !name.isEmpty && name ≠ "."

def fileName? (path : String) : Option String := (names path).getLast?.filter (· ≠ "..")

def join (directory name : String) : String :=
  match directory.toList.getLast? with
  | none => name
  | some c => if c = '/' then directory ++ name else directory ++ "/" ++ name

end Theming.Path
