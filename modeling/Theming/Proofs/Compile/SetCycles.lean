import Theming.Proofs.Compile.Failures
import Theming.Proofs.Compile.SetOrder

/-! Cycles of style sets. The sets of a kind are the nodes of a graph in which every set leads to
the one that it extends. Composing fails exactly if a cycle of this graph is in reach or the own
styles of one of the sets fail, and a reported cycle is a walk into it. The items of a list do not
get in each other's way, although they are composed with a single trail. -/

namespace Theming

open Relation Trail

/-- The names by which a source leads to other sets: those of its references, and those of the sets
that its own sets extend. -/
inductive Source.Names {kind : SetKind} (source : Source (StyleSet kind)) : String → Prop
  | reference {text : String} (leaf : .reference text ∈ source.leaves) :
      Names source (referenceName text)
  | parent {set : StyleSet kind} {parent : String} (leaf : .inline set ∈ source.leaves)
      (up : set.parent = some parent) : Names source (referenceName parent)

namespace Theme

variable {theme : Theme} {kind : SetKind} {source : Source (StyleSet kind)} {trail : Trail}
  {set : StyleSet kind} {reference name last : String} {styles : Styles} {error : ThemeError}

/-- The sets whose own styles go into those of a source. -/
inductive Involves (theme : Theme) (source : Source (StyleSet kind)) : StyleSet kind → Prop
  | inline {set : StyleSet kind} (leaf : .inline set ∈ source.leaves) : Involves theme source set
  | named {first last : String} {set : StyleSet kind} (start : source.Names first)
      (way : ReflTransGen (theme.SetEdge kind) first last)
      (found : (theme.sets.table kind).find? last = some set) : Involves theme source set

/-- The error is that of a way which comes back, or of the own styles of a set on it. -/
def SetFails (theme : Theme) (kind : SetKind) (trail : Trail) (name : String)
    (error : ThemeError) : Prop :=
  GivesUp .styleSets (theme.SetEdge kind) (setLabel kind) trail name error ∨
    ∃ last set, ReflTransGen (theme.SetEdge kind) name last ∧
      (theme.sets.table kind).find? last = some set ∧ theme.ownStyles set = .error error

theorem failsIn_namedSetStyles_trail (theme : Theme) (kind : SetKind) (trail : Trail)
    (reference : String) :
    FailsIn (theme.SetFails kind trail (referenceName reference))
      (theme.namedSetStyles kind trail reference) := by
  fun_induction namedSetStyles theme kind trail reference
  case case1 seen => exact .error (.inl (.here seen))
  case case2 => exact .ok []
  case case3 trail reference _ _ fresh set found ih =>
    have hown : FailsIn (theme.SetFails kind trail (referenceName reference))
        (theme.ownStyles set) := fun error he => .inr ⟨_, set, .refl, found, he⟩
    refine failsIn_inlineSetStyles hown fun parent up => ?_
    have hedge : theme.SetEdge kind (referenceName reference) (referenceName parent) :=
      ⟨set, parent, found, up, rfl⟩
    refine (ih parent).mono fun error h => ?_
    -- what makes the parent fail lies one step further on the way
    rcases h with h | ⟨last, next, way, hn, he⟩
    · exact .inl (h.step hedge)
    · exact .inr ⟨last, next, .head hedge way, hn, he⟩

theorem exists_ownStyles_of_way (h : theme.namedSetStyles kind trail reference = .ok styles)
    (way : ReflTransGen (theme.SetEdge kind) (referenceName reference) last)
    (found : (theme.sets.table kind).find? last = some set) :
    ∃ own, theme.ownStyles set = .ok own := by
  obtain ⟨more, next, inner, rfl, hi⟩ :=
    (explores_namedSetStyles theme kind).of_reflTransGen ⟨reference, styles, rfl, h⟩ way
  rw [namedSetStyles_of_find? found] at hi
  split at hi
  · cases hi
  · obtain ⟨own, -, ho, -⟩ := inlineSetStyles_eq_ok_iff.1 hi
    exact ⟨own, ho⟩

/-- The error is that of a way from the source which comes back, or of the own styles of a set. -/
def SourceFails (theme : Theme) (source : Source (StyleSet kind)) (error : ThemeError) : Prop :=
  (∃ name, source.Names name ∧
    GivesUp .styleSets (theme.SetEdge kind) (setLabel kind) [] name error) ∨
  ∃ set, theme.Involves source set ∧ theme.ownStyles set = .error error

theorem SetFails.sourceFails (h : theme.SetFails kind [] name error) (start : source.Names name) :
    theme.SourceFails source error := by
  rcases h with h | ⟨last, set, way, found, he⟩
  · exact .inl ⟨name, start, h⟩
  · exact .inr ⟨set, .named start way found, he⟩

theorem failsIn_leaf {leaf : Source (StyleSet kind)} (hl : leaf ∈ source.leaves) :
    FailsIn (theme.SourceFails source) (theme.setStyles leaf) := by
  cases leaf with
  | reference text =>
    rw [setStyles]
    exact (failsIn_namedSetStyles_trail theme kind [] text).mono
      fun error h => SetFails.sourceFails h (.reference hl)
  | inline set =>
    have hown : FailsIn (theme.SourceFails source) (theme.ownStyles set) :=
      fun error he => .inr ⟨set, .inline hl, he⟩
    rw [setStyles]
    refine failsIn_inlineSetStyles hown fun parent up => ?_
    exact (failsIn_namedSetStyles_trail theme kind [] parent).mono
      fun error h => SetFails.sourceFails h (.parent hl up)
  | list items => exact absurd rfl (source.leaves_ne_list _ hl items)

theorem failsIn_setStyles_leaf (theme : Theme) (source : Source (StyleSet kind)) :
    FailsIn (fun error => ∃ leaf ∈ source.leaves, theme.setStyles leaf = .error error)
      (theme.setStyles source) := by
  rw [setStyles_eq_mapM]
  exact (FailsIn.mapM fun leaf hl _ he => ⟨leaf, hl, he⟩).map Styles.mergeAll

theorem leaf_ok_of_setStyles (h : theme.setStyles source = .ok styles) :
    ∀ leaf ∈ source.leaves, ∃ inner, theme.setStyles leaf = .ok inner := by
  rw [setStyles_eq_mapM] at h
  obtain ⟨maps, hm, -⟩ := map_eq_ok_iff.1 h
  exact ok_of_mapM hm

theorem exists_named_of_names (h : theme.setStyles source = .ok styles)
    (start : source.Names name) : ∃ reference inner, referenceName reference = name ∧
      theme.namedSetStyles kind [] reference = .ok inner := by
  cases start with
  | @reference text leaf =>
    obtain ⟨inner, hi⟩ := leaf_ok_of_setStyles h _ leaf
    exact ⟨text, inner, rfl, by rwa [setStyles] at hi⟩
  | @parent set parent leaf up =>
    obtain ⟨inner, hi⟩ := leaf_ok_of_setStyles h _ leaf
    rw [setStyles] at hi
    obtain ⟨own, inherited, -, hp, -⟩ := inlineSetStyles_eq_ok_iff.1 hi
    rw [up] at hp
    exact ⟨parent, inherited, rfl, hp⟩

theorem exists_ownStyles_of_involves (h : theme.setStyles source = .ok styles)
    (involved : theme.Involves source set) : ∃ own, theme.ownStyles set = .ok own := by
  cases involved with
  | inline leaf =>
    obtain ⟨inner, hi⟩ := leaf_ok_of_setStyles h _ leaf
    rw [setStyles] at hi
    obtain ⟨own, -, ho, -⟩ := inlineSetStyles_eq_ok_iff.1 hi
    exact ⟨own, ho⟩
  | named start way found =>
    obtain ⟨reference, inner, rfl, hr⟩ := exists_named_of_names h start
    exact exists_ownStyles_of_way hr way found

theorem not_cycleInReach_of_setStyles (h : theme.setStyles source = .ok styles) :
    ¬ CycleInReach (theme.SetEdge kind) source.Names :=
  (explores_namedSetStyles theme kind).not_cycleInReach fun first start => by
    obtain ⟨reference, inner, hn, hr⟩ := exists_named_of_names h start
    exact ⟨reference, inner, hn, hr⟩

/-- The labels tell sets of one kind apart, so a repeated label is a repeated set. -/
theorem exists_walk_of_givesUp (start : source.Names name)
    (h : GivesUp .styleSets (theme.SetEdge kind) (setLabel kind) [] name error) :
    ∃ walk, error = .cycle .styleSets (walk.map (setLabel kind)) ∧
      ComesBack (theme.SetEdge kind) id source.Names walk := by
  obtain ⟨walk, hw, he⟩ := h
  exact ⟨walk, by simpa using he,
    (hw.comesBack start).at_node fun _ _ _ _ hl => setLabel_injective hl⟩

theorem ownStyles_ne_cycle (set : StyleSet kind) (path : List String) :
    theme.ownStyles set ≠ .error (.cycle .styleSets path) := by
  have hcovers : CoversValues (· ≠ .cycle .styleSets path) := by
    refine ⟨fun other h => ?_, fun name place cause h => ?_⟩ <;> cases h
  exact fun h => hcovers.ownStyles set _ h rfl

theorem sourceFails_of_setStyles (h : theme.setStyles source = .error error) :
    theme.SourceFails source error := by
  obtain ⟨leaf, hl, he⟩ := failsIn_setStyles_leaf theme source error h
  exact failsIn_leaf hl error he

/-! The search with a single trail: every set is put on it and taken off again. -/

def inlineSetStylesOn (theme : Theme) {kind : SetKind} (trail : Trail)
    (refer : String → Except ThemeError (Styles × Trail)) (set : StyleSet kind) :
    Except ThemeError (Styles × Trail) := do
  let own ← theme.ownStyles set
  let (inherited, after) ← match set.parent with
    | some parent => refer parent
    | none => .ok ([], trail)
  return ((Styles.merge inherited own).sorted, after)

def namedSetStylesOn (theme : Theme) (kind : SetKind) (trail : Trail) (reference : String) :
    Except ThemeError (Styles × Trail) :=
  let label := setLabel kind (referenceName reference)
  if label ∈ trail then .error (.cycle .styleSets (trail ++ [label]))
  else match _found : (theme.sets.table kind).find? (referenceName reference) with
    | none => .ok ([], trail)
    | some set => do
      let (styles, after) ← theme.inlineSetStylesOn (trail ++ [label])
        (fun parent => theme.namedSetStylesOn kind (trail ++ [label]) parent) set
      return (styles, after.dropLast)
termination_by Trail.unmet (theme.setLabels kind) trail
decreasing_by
  next seen =>
  exact Trail.unmet_append_lt (List.mem_map_of_mem (Table.mem_keys_of_find? _found)) seen

mutual

def setStylesOn (theme : Theme) {kind : SetKind} :
    Trail → Source (StyleSet kind) → Except ThemeError (Styles × Trail)
  | trail, .reference text => theme.namedSetStylesOn kind trail text
  | trail, .inline set => theme.inlineSetStylesOn trail (theme.namedSetStylesOn kind trail) set
  | trail, .list items => setListStylesOn theme trail [] items
termination_by structural _ source => source

def setListStylesOn (theme : Theme) {kind : SetKind} :
    Trail → Styles → List (Source (StyleSet kind)) → Except ThemeError (Styles × Trail)
  | trail, merged, [] => .ok (merged, trail)
  | trail, merged, item :: rest => do
    let (styles, after) ← setStylesOn theme trail item
    setListStylesOn theme after (Styles.merge merged styles) rest
termination_by structural _ _ items => items

end

theorem inlineSetStylesOn_eq {refer : String → Except ThemeError Styles}
    {referOn : String → Except ThemeError (Styles × Trail)}
    (hr : ∀ parent, referOn parent = (refer parent).map (·, trail)) (set : StyleSet kind) :
    theme.inlineSetStylesOn trail referOn set =
      (theme.inlineSetStyles refer set).map (·, trail) := by
  unfold inlineSetStylesOn inlineSetStyles
  cases theme.ownStyles set with
  | error error => rfl
  | ok own =>
    cases set.parent with
    | none => rfl
    | some parent =>
      change (referOn parent >>= _) = ((refer parent >>= _)).map _
      rw [hr]
      cases refer parent <;> rfl

theorem namedSetStylesOn_of_find?
    (found : (theme.sets.table kind).find? (referenceName reference) = some set) :
    theme.namedSetStylesOn kind trail reference =
      if setLabel kind (referenceName reference) ∈ trail then
        .error (.cycle .styleSets (trail ++ [setLabel kind (referenceName reference)]))
      else (theme.inlineSetStylesOn (trail ++ [setLabel kind (referenceName reference)])
        (theme.namedSetStylesOn kind (trail ++ [setLabel kind (referenceName reference)])) set).map
          fun (styles, after) => (styles, after.dropLast) := by
  rw [namedSetStylesOn]
  split
  · rfl
  · split
    · next there => simp [found] at there
    · next other there =>
      obtain rfl : set = other := by simpa [found] using there
      rfl

theorem namedSetStylesOn_of_not_mem
    (lost : (theme.sets.table kind).find? (referenceName reference) = none)
    (fresh : setLabel kind (referenceName reference) ∉ trail) :
    theme.namedSetStylesOn kind trail reference = .ok ([], trail) := by
  rw [namedSetStylesOn, if_neg fresh]
  split
  · rfl
  · next there => simp [lost] at there

/-- A set that succeeds leaves the trail as it has found it. -/
theorem namedSetStylesOn_eq (theme : Theme) (kind : SetKind) (trail : Trail) (reference : String) :
    theme.namedSetStylesOn kind trail reference =
      (theme.namedSetStyles kind trail reference).map (·, trail) := by
  fun_induction namedSetStyles theme kind trail reference
  case case1 seen =>
    rw [namedSetStylesOn, if_pos seen]
    rfl
  case case2 fresh found => exact namedSetStylesOn_of_not_mem found fresh
  case case3 fresh set found ih =>
    rw [namedSetStylesOn_of_find? found, if_neg fresh, inlineSetStylesOn_eq ih]
    -- the label that was put on the trail for the set is the last one when it is taken off
    cases theme.inlineSetStyles _ set with
    | error error => rfl
    | ok styles => exact congrArg (fun after => Except.ok (styles, after)) List.dropLast_concat

mutual

theorem setStylesOn_eq (theme : Theme) {kind : SetKind} : (source : Source (StyleSet kind)) →
    theme.setStylesOn [] source = (theme.setStyles source).map (·, [])
  | .reference text => by
    rw [setStylesOn, setStyles]
    exact namedSetStylesOn_eq theme kind [] text
  | .inline set => by
    rw [setStylesOn, setStyles]
    exact inlineSetStylesOn_eq (namedSetStylesOn_eq theme kind []) set
  | .list items => by
    rw [setStylesOn, setStyles]
    exact setListStylesOn_eq theme items []
termination_by structural source => source

theorem setListStylesOn_eq (theme : Theme) {kind : SetKind} :
    (items : List (Source (StyleSet kind))) → (merged : Styles) →
    theme.setListStylesOn [] merged items = (theme.setListStyles merged items).map (·, [])
  | [], merged => rfl
  | item :: rest, merged => by
    rw [setListStylesOn, setListStyles, setStylesOn_eq theme item]
    cases theme.setStyles item with
    | error error => rfl
    | ok styles => exact setListStylesOn_eq theme rest (Styles.merge merged styles)
termination_by structural items => items

end

/-- Composing a source fails exactly if it leads to a cycle of sets or the own styles of a set fail.
A reported cycle is the walk from the source which comes back to one of its sets. Leaves only fail
on their own account, and one trail that is handed on from step to step serves as well. -/
theorem set_cycles_exact (theme : Theme) {kind : SetKind} (source : Source (StyleSet kind)) :
    ((∃ error, theme.setStyles source = .error error) ↔
      CycleInReach (theme.SetEdge kind) source.Names ∨
        ∃ set error, theme.Involves source set ∧ theme.ownStyles set = .error error) ∧
    (∀ error, theme.setStyles source = .error error →
      (∃ path, error = .cycle .styleSets path) ∨
        ∃ set, theme.Involves source set ∧ theme.ownStyles set = .error error) ∧
    (∀ path, theme.setStyles source = .error (.cycle .styleSets path) →
      CycleInReach (theme.SetEdge kind) source.Names ∧ ∃ walk, path = walk.map (setLabel kind) ∧
        ComesBack (theme.SetEdge kind) id source.Names walk) ∧
    (∀ error, theme.setStyles source = .error error →
      ∃ leaf ∈ source.leaves, theme.setStyles leaf = .error error) ∧
    theme.setStylesOn [] source = (theme.setStyles source).map (·, []) := by
  refine ⟨⟨fun ⟨error, h⟩ => ?_, fun h => ?_⟩, fun error h => ?_, fun path h => ?_,
    failsIn_setStyles_leaf theme source, setStylesOn_eq theme source⟩
  · rcases sourceFails_of_setStyles h with ⟨name, start, hg⟩ | ⟨set, involved, ho⟩
    · obtain ⟨walk, -, hb⟩ := exists_walk_of_givesUp start hg
      exact .inl hb.cycleInReach
    · exact .inr ⟨set, error, involved, ho⟩
  · cases hs : theme.setStyles source with
    | error error => exact ⟨error, rfl⟩
    | ok styles =>
      rcases h with hcycle | ⟨set, error, involved, ho⟩
      · exact absurd hcycle (not_cycleInReach_of_setStyles hs)
      · obtain ⟨own, hown⟩ := exists_ownStyles_of_involves hs involved
        rw [ho] at hown
        cases hown
  · rcases sourceFails_of_setStyles h with ⟨name, start, hg⟩ | involved
    · obtain ⟨walk, he, -⟩ := exists_walk_of_givesUp start hg
      exact .inl ⟨_, he⟩
    · exact .inr involved
  · rcases sourceFails_of_setStyles h with ⟨name, start, hg⟩ | ⟨set, -, ho⟩
    · obtain ⟨walk, he, hb⟩ := exists_walk_of_givesUp start hg
      cases he
      exact ⟨hb.cycleInReach, walk, rfl, hb⟩
    · exact absurd ho (ownStyles_ne_cycle set path)

def borderExtending (parent : String) : StyleSet .border :=
  ⟨some parent, BorderProps.record.blank, fun _ => none, none⟩

def loopTheme : Theme := { Theme.record.blank with
  sets.borderSets := [("a", borderExtending "$$b"), ("b", borderExtending "$$a"),
    ("base", plainBorder)] }

def intoLoop : Source (StyleSet .border) := .reference "$$a"

def twoHeirs : Source (StyleSet .border) :=
  .list [.inline (borderExtending "$$base"), .inline (borderExtending "$$base")]

theorem inlineSetStyles_of_parent_error {refer : String → Except ThemeError Styles}
    {own : Styles} {parent : String} (ho : theme.ownStyles set = .ok own)
    (up : set.parent = some parent) (h : refer parent = .error error) :
    theme.inlineSetStyles refer set = .error error := by
  simp only [inlineSetStyles, ho, up, slotStyles, h]
  rfl

theorem setStyles_loopTheme : loopTheme.setStyles intoLoop =
    .error (.cycle .styleSets ["borderSets.a", "borderSets.b", "borderSets.a"]) := by
  have ha : (loopTheme.sets.table .border).find? (referenceName "$$a") =
      some (borderExtending "$$b") := rfl
  have hb : (loopTheme.sets.table .border).find? (referenceName "$$b") =
      some (borderExtending "$$a") := rfl
  have hown (parent : String) : loopTheme.ownStyles (borderExtending parent) = .ok [] := rfl
  rw [intoLoop, setStyles, namedSetStyles_of_find? ha, if_neg (by decide)]
  refine inlineSetStyles_of_parent_error (hown _) rfl ?_
  rw [namedSetStyles_of_find? hb, if_neg (by decide)]
  refine inlineSetStyles_of_parent_error (hown _) rfl ?_
  rw [namedSetStyles_of_find? ha, if_pos (by decide)]
  rfl

/-- The loop is reported with a walk into it, and two heirs of one set are no cycle. -/
theorem loop_reported_but_not_heirs :
    loopTheme.setStyles intoLoop =
      .error (.cycle .styleSets ["borderSets.a", "borderSets.b", "borderSets.a"]) ∧
    (∃ walk, ["borderSets.a", "borderSets.b", "borderSets.a"] = walk.map (setLabel .border) ∧
      ComesBack (loopTheme.SetEdge .border) id
        intoLoop.Names walk) ∧
    (loopTheme.setStyles twoHeirs).isOk = true ∧
    ¬ CycleInReach (loopTheme.SetEdge .border) twoHeirs.Names := by
  obtain ⟨-, -, hwalk, -⟩ := set_cycles_exact loopTheme intoLoop
  obtain ⟨hfails, -⟩ := set_cycles_exact loopTheme twoHeirs
  have hheirs : (loopTheme.setStyles twoHeirs).isOk = true := by decide +kernel
  refine ⟨setStyles_loopTheme, (hwalk _ setStyles_loopTheme).2, hheirs, fun hcycle => ?_⟩
  obtain ⟨error, he⟩ := hfails.2 (.inl hcycle)
  rw [he] at hheirs
  cases hheirs

end Theme

end Theming
