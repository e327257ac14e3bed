import Theming.Table
import Theming.Taken
import Theming.Yaml.Token

/-! The nodes of a YAML document. -/

namespace Theming.Yaml

structure Props where
  anchor : Option Nat
  tag : Option String
  deriving Repr

namespace Props

def none : Props := ⟨.none, .none⟩

/-- A lone exclamation mark says nothing about the tag of a scalar. -/
def ofScalar (props : Props) : Props := { props with tag := props.tag.filter (· ≠ "!") }

end Props

inductive Node where
  | alias (id : Nat)
  | scalar (props : Props) (plain : Bool) (text : String)
  | list (props : Props) (items : List Node)
  | mapping (props : Props) (entries : List (Node × Node))
  deriving Repr

namespace Node

def empty (props : Props) : Node := .scalar props true ""

def commonHandles : Table String := [("!", "!"), ("!!", "tag:yaml.org,2002:")]

def fullTag? (handles : Table String) (handle suffix : String) : Option String :=
  if handle.isEmpty then some suffix else (handles.find? handle).map (· ++ suffix)

def props (handles : Table String) (tokens : List Token) :
    Option (Props × Remainder tokens) :=
  match tokens with
  | .anchor id :: .tag handle suffix :: rest =>
    (fullTag? handles handle suffix).map fun tag => (⟨id, tag⟩, ⟨rest, Nat.le_add_right _ 2⟩)
  | .tag handle suffix :: .anchor id :: rest =>
    (fullTag? handles handle suffix).map fun tag => (⟨id, tag⟩, ⟨rest, Nat.le_add_right _ 2⟩)
  | .anchor id :: rest => some (⟨id, none⟩, ⟨rest, Nat.le_succ _⟩)
  | .tag handle suffix :: rest =>
    (fullTag? handles handle suffix).map fun tag => (⟨none, tag⟩, ⟨rest, Nat.le_succ _⟩)
  | rest => some (.none, ⟨rest, Nat.le_refl _⟩)

/-- What follows the comma in front of an entry in brackets. The first entry has none. -/
def afterComma (closing : Token) (isFirst : Bool) (tokens : List Token) :
    Option (Remainder tokens) :=
  match tokens with
  | [] => none
  | token :: rest =>
    if token = closing || (isFirst && token ≠ .flowEntry) then
      some ⟨token :: rest, Nat.le_refl _⟩
    else if token = .flowEntry && !isFirst then some ⟨rest, Nat.le_succ _⟩
    else none

mutual

/-- The node at the front of the tokens. Block collections stand only outside of brackets, and a
list that is not indented only as the value of a key. -/
def read (handles : Table String) (inBlock notIndented : Bool) (tokens : List Token) :
    Option (Taken Node tokens) := do
  let (props, ⟨start, hs⟩) ← props handles tokens
  match start, hs with
  | .alias id :: rest, hs =>
    if h : rest.length + 1 < tokens.length then return ⟨.empty props, .alias id :: rest, h⟩
    else return ⟨.alias id, rest, hs⟩
  | .scalar plain text :: rest, hs =>
    return ⟨.scalar props.ofScalar plain text, rest, hs⟩
  | .flowListStart :: rest, hs =>
    let ⟨items, rest', h⟩ ← flowItems handles [] rest
    return ⟨.list props items, rest', Nat.lt_trans h hs⟩
  | .flowMappingStart :: rest, hs =>
    let ⟨entries, rest', h⟩ ← flowEntries handles [] rest
    return ⟨.mapping props entries, rest', Nat.lt_trans h hs⟩
  | .blockListStart :: .blockEntry :: rest, hs =>
    if inBlock then
      let (items, ⟨rest', h⟩) ← blockItems handles true [] rest
      return ⟨.list props items, rest', Nat.lt_of_le_of_lt h (Nat.lt_of_succ_lt hs)⟩
    else failure
  | .blockMappingStart :: rest, hs =>
    if inBlock then
      let ⟨entries, rest', h⟩ ← blockEntries handles [] rest
      return ⟨.mapping props entries, rest', Nat.lt_trans h hs⟩
    else failure
  | .blockEntry :: rest, hs =>
    if notIndented then
      let (items, ⟨rest', h⟩) ← blockItems handles false [] rest
      return ⟨.list props items, rest', Nat.lt_of_le_of_lt h hs⟩
    else if h : rest.length + 1 < tokens.length then
      return ⟨.empty props, .blockEntry :: rest, h⟩
    else failure
  | rest, _ =>
    if h : rest.length < tokens.length then return ⟨.empty props, rest, h⟩ else failure
termination_by 4 * tokens.length + 1
decreasing_by all_goals grind

/-- The node at the front, which is empty if one of the given tokens comes first. -/
def readOr (ends : List Token) (handles : Table String) (inBlock notIndented : Bool)
    (tokens : List Token) : Option (Node × Remainder tokens) :=
  if tokens.head?.any ends.contains then some (.empty .none, ⟨tokens, Nat.le_refl _⟩)
  else do
    let ⟨node, rest, h⟩ ← read handles inBlock notIndented tokens
    return (node, ⟨rest, Nat.le_of_lt h⟩)
termination_by 4 * tokens.length + 2
decreasing_by all_goals grind

/-- A value, which is empty without its indicator. -/
def readValue (ends : List Token) (handles : Table String) (inBlock : Bool)
    (tokens : List Token) : Option (Node × Remainder tokens) :=
  match tokens with
  | .value :: rest => do
    let (value, ⟨rest', h⟩) ← readOr ends handles inBlock inBlock rest
    return (value, ⟨rest', Nat.le_succ_of_le h⟩)
  | rest => some (.empty .none, ⟨rest, Nat.le_refl _⟩)
termination_by 4 * tokens.length + 3
decreasing_by all_goals grind

def blockItems (handles : Table String) (indented : Bool) (found : List Node)
    (tokens : List Token) : Option (List Node × Remainder tokens) := do
  let ends := if indented then [.blockEntry, .blockEnd] else [.blockEntry, .key, .value, .blockEnd]
  let (item, ⟨rest, h⟩) ← readOr ends handles true false tokens
  let found := item :: found
  match rest, h with
  | .blockEntry :: rest', h =>
    let (items, ⟨rest'', h'⟩) ← blockItems handles indented found rest'
    return (items, ⟨rest'', Nat.le_trans h' (Nat.le_of_lt h)⟩)
  | .blockEnd :: rest', h =>
    if indented then return (found.reverse, ⟨rest', Nat.le_of_lt h⟩)
    else return (found.reverse, ⟨.blockEnd :: rest', h⟩)
  | rest', h => if indented then failure else return (found.reverse, ⟨rest', h⟩)
termination_by 4 * tokens.length + 3
decreasing_by all_goals grind

def blockEntries (handles : Table String) (found : List (Node × Node)) (tokens : List Token) :
    Option (Taken (List (Node × Node)) tokens) :=
  match tokens with
  | .blockEnd :: rest => some ⟨found.reverse, rest, Nat.lt_succ_self _⟩
  | .key :: rest => do
    let ends := [.key, .value, .blockEnd]
    let (key, ⟨rest', h⟩) ← readOr ends handles true true rest
    let (value, ⟨rest'', h'⟩) ← readValue ends handles true rest'
    let all ← blockEntries handles ((key, value) :: found) rest''
    return all.within _ (Nat.le_succ_of_le (Nat.le_trans h' h))
  | _ => none
termination_by 4 * tokens.length + 0
decreasing_by all_goals grind

/-- The items of a list in brackets up to its end. A key makes its item a mapping of one entry;
a key without a node takes the token behind it away. -/
def flowItems (handles : Table String) (found : List Node) (tokens : List Token) :
    Option (Taken (List Node) tokens) := do
  let ⟨start, hs⟩ ← afterComma .flowListEnd found.isEmpty tokens
  match start, hs with
  | .flowListEnd :: rest, hs => return ⟨found.reverse, rest, hs⟩
  | .key :: rest, hs =>
    let ends := [.flowEntry, .flowListEnd]
    let (key, ⟨behindKey, h⟩) ← readOr (.value :: ends) handles false false rest
    let ⟨atValue, hv⟩ : Remainder behindKey :=
      if behindKey.length < rest.length then ⟨behindKey, Nat.le_refl _⟩
      else ⟨behindKey.tail, behindKey.tail_sublist.length_le⟩
    let (value, ⟨behindValue, h'⟩) ← readValue ends handles false atValue
    let all ← flowItems handles (.mapping .none [(key, value)] :: found) behindValue
    return all.within _ (Nat.le_trans (Nat.le_trans h' (Nat.le_trans hv h)) (Nat.le_of_lt hs))
  | start, hs =>
    let ⟨item, rest, h⟩ ← read handles false false start
    let all ← flowItems handles (item :: found) rest
    return all.within _ (Nat.le_of_lt (Nat.lt_of_lt_of_le h hs))
termination_by 4 * tokens.length + 2
decreasing_by all_goals grind

def flowEntries (handles : Table String) (found : List (Node × Node)) (tokens : List Token) :
    Option (Taken (List (Node × Node)) tokens) := do
  let ⟨start, hs⟩ ← afterComma .flowMappingEnd found.isEmpty tokens
  match start, hs with
  | .flowMappingEnd :: rest, hs => return ⟨found.reverse, rest, hs⟩
  | .key :: rest, hs =>
    let ends := [.flowEntry, .flowMappingEnd]
    let (key, ⟨rest', h⟩) ← readOr (.value :: ends) handles false false rest
    let (value, ⟨rest'', h'⟩) ← readValue ends handles false rest'
    let all ← flowEntries handles ((key, value) :: found) rest''
    return all.within _ (Nat.le_trans (Nat.le_trans h' h) (Nat.le_of_lt hs))
  | start, hs =>
    let ⟨key, rest, h⟩ ← read handles false false start
    let all ← flowEntries handles ((key, .empty .none) :: found) rest
    return all.within _ (Nat.le_of_lt (Nat.lt_of_lt_of_le h hs))
termination_by 4 * tokens.length + 2
decreasing_by all_goals grind

end

/-- The directives at the start of a document: at most one version, and handles that differ. -/
def directives : (hasVersion : Bool) → (handles : Table String) → List Token →
    Option (Table String × List Token)
  | hasVersion, handles, .version :: rest =>
    if hasVersion then none else directives true handles rest
  | hasVersion, handles, .tagHandle handle start :: rest =>
    if (handles.find? handle).isSome then none
    else directives hasVersion (handles.put handle start) rest
  | _, handles, rest => some (handles, rest)

/-- The only document of a text. Nothing but its end may follow it. -/
def ofTokens? (tokens : List Token) : Option Node := do
  let (handles, rest) ← directives false [] tokens
  let handles := commonHandles.putAll handles
  let (node, rest) ← match rest with
    | .documentStart :: rest =>
      let (node, ⟨rest, _⟩) ← if rest.isEmpty then some (empty .none, ⟨[], Nat.zero_le _⟩)
        else readOr [.version, .documentStart, .documentEnd] handles true false rest
      some (node, rest)
    | [] => if tokens.isEmpty then some (empty .none, []) else none
    | rest =>
      if rest.length < tokens.length then none
      else do
        let ⟨node, rest, _⟩ ← read handles true false rest
        some (node, rest)
  if rest.all (· = .documentEnd) then some node else none

end Node

end Theming.Yaml
