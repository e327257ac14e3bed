import Theming.Yaml.Node
import Theming.Yaml.Schema
import Theming.Yaml.Tokens

/-! The value of a YAML document. -/

namespace Theming.Yaml

namespace Node

def props? : Node → Option Props
  | .alias _ => none
  | .scalar props .. | .list props _ | .mapping props _ => some props

mutual

def within : Node → List Node
  | .alias id => [.alias id]
  | .scalar props plain text => [.scalar props plain text]
  | .list props items => .list props items :: withinItems items
  | .mapping props entries => .mapping props entries :: withinEntries entries
termination_by structural node => node

def withinItems : List Node → List Node
  | [] => []
  | item :: rest => within item ++ withinItems rest
termination_by structural items => items

def withinEntries : List (Node × Node) → List Node
  | [] => []
  | (key, value) :: rest => within key ++ within value ++ withinEntries rest
termination_by structural entries => entries

end

/-- The last node with an anchor. -/
def anchored? (root : Node) (id : Nat) : Option Node :=
  root.within.reverse.find? fun node => (node.props?.bind Props.anchor) == some id

def isCollection : Node → Bool
  | .list .. | .mapping .. => true
  | .alias _ | .scalar .. => false

/-- The number of steps of reading a document, in which collections have a start and an end. -/
def steps (root : Node) : Nat :=
  root.within.foldl (fun count node => count + if node.isCollection then 2 else 1) 0

/-- Local tags are not allowed on collections. -/
def hasLocalTag (props : Props) : Bool :=
  props.tag.any fun tag => tag.toList.head? == some '!'

/-- The node itself, or the one that an alias stands for. The state is the number of aliases that
may still be followed. -/
def target (root : Node) : Node → StateT Nat Option Node
  | .alias id => do
    match ← get with
    | 0 => failure
    | left + 1 =>
      set left
      StateT.lift (root.anchored? id)
  | node => pure node

def keyText? : Node → Option String
  | .scalar _ _ text => some text
  | _ => none

/-- The value of a part of `root`, in which collections nest at most `depth` deep. -/
def value (root : Node) (depth : Nat) (node : Node) : StateT Nat Option Value := do
  match ← root.target node, depth with
  | .alias _, _ => failure
  | .scalar props plain text, _ => StateT.lift (scalarValue? props.tag plain text)
  | .list .., 0 | .mapping .., 0 => failure
  | .list props items, depth + 1 =>
    if hasLocalTag props then failure
    return .list (← items.mapM (value root depth))
  | .mapping props entries, depth + 1 =>
    if hasLocalTag props then failure
    let entries ← entries.mapM fun (key, item) => do
      let key ← StateT.lift (← root.target key).keyText?
      return (key, ← value root depth item)
    return .object (Table.ofEntries entries)

end Node

def documentDepth : Nat := 128

def parse? (text : String) : Option Value := do
  let root ← Node.ofTokens? (← tokens? text.toList)
  let (value, _) ← (root.value documentDepth root).run (100 * root.steps)
  return value

end Theming.Yaml
