import Theming.Proofs.Compile.References

/-! Cycles of boxes. The box sets, and the parts or variants that a context knows, are the nodes of
a graph whose edges are the references in them. Composing fails if a cycle of this graph is in
reach. A reported cycle is a walk along the edges whose last label stands earlier on it, and labels
tell the nodes apart unless the component of the context has a name like the table of box sets. -/

namespace Theming

open Relation Trail

inductive BoxNode where
  | set (name : String)
  | part (name : String)
  | variant (owner name : String)
  deriving DecidableEq

def BoxNode.label : BoxNode → String
  | set name => "boxSets." ++ name
  | part name => "parts." ++ name
  | variant owner name => owner ++ ".variants." ++ name

/-- What a name may stand for near a box, if there is no box set of that name. -/
def BoxContext.nearby (context : BoxContext) (name : String) : List BoxNode :=
  match context with
  | .global => []
  | .component owner => [.variant owner name]
  | .parts _ => [.part name]

/-- The labels of variants of this component look like those of box sets. -/
def BoxContext.Ambiguous : BoxContext → Prop
  | .component owner => "boxSets.".toList <+: owner.toList ++ ['.']
  | .global | .parts _ => False

theorem BoxContext.ambiguous_of_label_eq {owner variant name : String}
    (h : (BoxNode.variant owner variant).label = (BoxNode.set name).label) :
    (BoxContext.component owner).Ambiguous := by
  have hl : (owner.toList ++ ['.']) ++ ("variants.".toList ++ variant.toList) =
      "boxSets.".toList ++ name.toList := by
    simpa [BoxNode.label] using congrArg String.toList h
  have howner : owner.toList ++ ['.'] <+: "boxSets.".toList ++ name.toList := ⟨_, hl⟩
  rcases List.prefix_or_prefix_of_prefix (List.prefix_append _ name.toList) howner with h | h
  · exact h
  · have hlast : owner.toList ++ ['.'] <+: "boxSets".toList ++ ['.'] := h
    rcases List.prefix_concat_iff.1 hlast with h | h
    · exact ⟨[], by simp [h]⟩
    · -- the label of the table has no other dot
      exact absurd (h.subset (by simp)) (by decide : '.' ∉ "boxSets".toList)

/-- Labels tell the nodes of a context apart, unless they are ambiguous. -/
theorem BoxContext.eq_of_label_eq {context : BoxContext} (h : ¬ context.Ambiguous)
    {node node' : BoxNode} {name name' : String} (hn : node ∈ .set name :: context.nearby name)
    (hn' : node' ∈ .set name' :: context.nearby name') (hl : node.label = node'.label) :
    node = node' := by
  have hset {n n' : String} (he : (BoxNode.set n).label = (BoxNode.set n').label) : n = n' :=
    (String.append_right_inj _).1 he
  cases context with
  | global =>
    obtain rfl : node = .set name := by simpa [nearby] using hn
    obtain rfl : node' = .set name' := by simpa [nearby] using hn'
    rw [hset hl]
  | component owner =>
    have hn : node = .set name ∨ node = .variant owner name := by simpa [nearby] using hn
    have hn' : node' = .set name' ∨ node' = .variant owner name' := by simpa [nearby] using hn'
    rcases hn with rfl | rfl <;> rcases hn' with rfl | rfl
    · rw [hset hl]
    · exact absurd (ambiguous_of_label_eq hl.symm) h
    · exact absurd (ambiguous_of_label_eq hl) h
    · rw [(String.append_right_inj _).1 hl]
  | parts parts =>
    have hn : node = .set name ∨ node = .part name := by simpa [nearby] using hn
    have hn' : node' = .set name' ∨ node' = .part name' := by simpa [nearby] using hn'
    have hpart {n n' : String} (he : (BoxNode.part n).label = (BoxNode.set n').label) : False := by
      simpa [BoxNode.label] using congrArg (fun s => s.toList.head?) he
    rcases hn with rfl | rfl <;> rcases hn' with rfl | rfl
    · rw [hset hl]
    · exact (hpart hl.symm).elim
    · exact (hpart hl).elim
    · rw [(String.append_right_inj _).1 hl]

namespace Theme

variable {theme : Theme} {context : BoxContext}

def boxAt? (theme : Theme) (context : BoxContext) : BoxNode → Option (Source Box)
  | .set name => (theme.sets.boxSets.find? name).map .inline
  | .part name => match context with
    | .parts parts => parts.find? name
    | .global | .component _ => none
  | .variant owner name => do
    (← (← theme.components.find? owner).variants.find? name).theming

def boxNode? (theme : Theme) (context : BoxContext) (name : String) : Option BoxNode :=
  (BoxNode.set name :: context.nearby name).find? fun node => (theme.boxAt? context node).isSome

theorem boxTarget?_eq (theme : Theme) (context : BoxContext) (name : String) :
    theme.boxTarget? context name = (theme.boxNode? context name).bind fun node =>
      (theme.boxAt? context node).map (node.label, ·) := by
  unfold boxTarget? boxNode?
  cases hs : theme.sets.boxSets.find? name with
  | some box => simp [boxAt?, BoxNode.label, hs]
  | none =>
    cases context with
    | global => simp [boxAt?, hs, BoxContext.nearby]
    | parts parts =>
      cases hp : parts.find? name <;> simp [boxAt?, BoxNode.label, hs, BoxContext.nearby, hp]
    | component owner =>
      cases hc : theme.components.find? owner with
      | none => simp [boxAt?, hs, BoxContext.nearby, hc]
      | some component =>
        cases hv : component.variants.find? name with
        | none => simp [boxAt?, hs, BoxContext.nearby, hc, hv]
        | some variant =>
          cases ht : variant.theming <;>
            simp [boxAt?, BoxNode.label, hs, BoxContext.nearby, hc, hv, ht]

theorem exists_boxAt {name : String} {node : BoxNode}
    (h : theme.boxNode? context name = some node) :
    ∃ source, theme.boxAt? context node = some source :=
  Option.isSome_iff_exists.1 (by simpa using List.find?_some h)

theorem boxTarget?_eq_none_iff {name : String} :
    theme.boxTarget? context name = none ↔ theme.boxNode? context name = none := by
  rw [boxTarget?_eq, Option.bind_eq_none_iff]
  refine ⟨fun h => Option.eq_none_iff_forall_ne_some.2 fun node hn => ?_, fun h => by simp [h]⟩
  obtain ⟨source, hs⟩ := exists_boxAt hn
  simpa [hs] using h node hn

theorem boxTarget?_eq_some_iff {name label : String} {source : Source Box} :
    theme.boxTarget? context name = some (label, source) ↔ ∃ node,
      theme.boxNode? context name = some node ∧ theme.boxAt? context node = some source ∧
        node.label = label := by
  rw [boxTarget?_eq]
  simp only [Option.bind_eq_some_iff, Option.map_eq_some_iff, Prod.mk.injEq]
  grind

theorem namedBoxStyles_of_none {trail : Trail} {reference : String}
    (h : theme.boxNode? context (referenceName reference) = none) :
    theme.namedBoxStyles context trail reference = .ok none := by
  have ht := boxTarget?_eq_none_iff.2 h
  rw [namedBoxStyles]
  split
  · rfl
  · next found => simp [ht] at found

theorem namedBoxStyles_of_node {trail : Trail} {reference : String} {node : BoxNode}
    {source : Source Box} (h : theme.boxNode? context (referenceName reference) = some node)
    (hs : theme.boxAt? context node = some source) :
    theme.namedBoxStyles context trail reference =
      if node.label ∈ trail then .error (.cycle .boxes (trail ++ [node.label]))
      else theme.sourceStyles (theme.namedBoxStyles context (trail ++ [node.label])) source := by
  have ht := boxTarget?_eq_some_iff.2 ⟨node, h, hs, rfl⟩
  rw [namedBoxStyles]
  split
  · next found => simp [ht] at found
  · next found =>
    obtain ⟨rfl, rfl⟩ : node.label = _ ∧ source = _ := by simpa [ht] using found
    rfl

def RefersTo (theme : Theme) (context : BoxContext) (source : Source Box) (node : BoxNode) : Prop :=
  ∃ text, Mentions source text ∧ theme.boxNode? context (referenceName text) = some node

/-- A reference in the box at one node leads to the other node. -/
def BoxEdge (theme : Theme) (context : BoxContext) (node next : BoxNode) : Prop :=
  ∃ source, theme.boxAt? context node = some source ∧ theme.RefersTo context source next

theorem mem_of_boxNode? {name : String} {node : BoxNode}
    (h : theme.boxNode? context name = some node) : node ∈ .set name :: context.nearby name :=
  List.mem_of_find?_eq_some h

theorem explores_namedBoxStyles (theme : Theme) (context : BoxContext) :
    Explores (theme.BoxEdge context) BoxNode.label fun trail node =>
      ∃ reference found, theme.boxNode? context (referenceName reference) = some node ∧
        theme.namedBoxStyles context trail reference = .ok found := by
  rintro trail node ⟨reference, found, hn, h⟩
  obtain ⟨source, hs⟩ := exists_boxAt hn
  rw [namedBoxStyles_of_node hn hs] at h
  split at h
  · cases h
  · next fresh =>
    refine ⟨fresh, fun next ⟨source', hs', text, ht, hnext⟩ => ?_⟩
    obtain rfl : source = source' := by simpa [hs] using hs'
    obtain ⟨inner, hi⟩ := refer_ok_of_mentions ht h
    exact ⟨text, inner, hnext, hi⟩

/-- The error reports no cycle of boxes, or the walk from a start that has come back. -/
def BoxesGiveUp (theme : Theme) (context : BoxContext) (trail : Trail) (start : BoxNode → Prop)
    (error : ThemeError) : Prop :=
  ∀ path, error = .cycle .boxes path →
    ∃ node, start node ∧ GivesUp .boxes (theme.BoxEdge context) BoxNode.label trail node error

theorem coversSets_boxesGiveUp (trail : Trail) (start : BoxNode → Prop) :
    CoversSets (theme.BoxesGiveUp context trail start) where
  cycle _ _ h := nomatch h
  misfit _ _ _ _ h := nomatch h
  styleSets _ _ h := nomatch h

theorem failsIn_namedBoxStyles (theme : Theme) (context : BoxContext) (trail : Trail)
    (reference : String) :
    FailsIn (theme.BoxesGiveUp context trail fun node =>
        theme.boxNode? context (referenceName reference) = some node)
      (theme.namedBoxStyles context trail reference) := by
  induction trail, reference using namedBoxStyles.induct theme context with
  | case1 trail reference found =>
    rw [namedBoxStyles_of_none (boxTarget?_eq_none_iff.1 found)]
    exact .ok none
  | case2 trail reference label source found seen =>
    obtain ⟨node, hn, hs, rfl⟩ := boxTarget?_eq_some_iff.1 found
    rw [namedBoxStyles_of_node hn hs, if_pos seen]
    exact .error fun _ _ => ⟨node, hn, .here seen⟩
  | case3 trail reference label source found fresh ih =>
    obtain ⟨node, hn, hs, rfl⟩ := boxTarget?_eq_some_iff.1 found
    rw [namedBoxStyles_of_node hn hs, if_neg fresh]
    refine failsIn_sourceStyles (coversSets_boxesGiveUp _ _) source
      fun text ht => (ih text).mono fun error h path he => ?_
    obtain ⟨next, hnext, hg⟩ := h path he
    exact ⟨node, hn, hg.step ⟨source, hs, text, ht, hnext⟩⟩

theorem failsIn_boxCss (theme : Theme) (context : BoxContext) (source : Source Box) :
    FailsIn (theme.BoxesGiveUp context [] (theme.RefersTo context source))
      (theme.boxCss context source) := by
  refine failsIn_sourceStyles (coversSets_boxesGiveUp _ _) source
    fun text ht => (failsIn_namedBoxStyles theme context [] text).mono fun error h path he => ?_
  obtain ⟨node, hn, hg⟩ := h path he
  exact ⟨node, ⟨text, ht, hn⟩, hg⟩

/-- Composing fails wherever a cycle of boxes is in reach. A cycle that it reports is a walk from a
reference of the source whose last label stands earlier on it, so that a cycle is in reach unless
labels are ambiguous. -/
theorem box_cycles_detected (theme : Theme) (context : BoxContext) (source : Source Box) :
    (CycleInReach (theme.BoxEdge context) (theme.RefersTo context source) →
      ∃ error, theme.boxCss context source = .error error) ∧
    ∀ path, theme.boxCss context source = .error (.cycle .boxes path) →
      ∃ walk, path = walk.map BoxNode.label ∧
        ComesBack (theme.BoxEdge context) BoxNode.label (theme.RefersTo context source) walk ∧
        (¬ context.Ambiguous →
          ComesBack (theme.BoxEdge context) id (theme.RefersTo context source) walk ∧
          CycleInReach (theme.BoxEdge context) (theme.RefersTo context source)) := by
  refine ⟨fun hcycle => ?_, fun path h => ?_⟩
  · cases hb : theme.boxCss context source with
    | error error => exact ⟨error, rfl⟩
    | ok found =>
      refine absurd hcycle ((explores_namedBoxStyles theme context).not_cycleInReach
        fun node ⟨text, ht, hn⟩ => ?_)
      obtain ⟨inner, hi⟩ := refer_ok_of_mentions ht hb
      exact ⟨text, inner, hn, hi⟩
  · obtain ⟨node, hn, walk, hw, he⟩ := failsIn_boxCss theme context source _ h path rfl
    have hwalk := hw.comesBack hn
    refine ⟨walk, by simpa using he, hwalk, fun hclear => ?_⟩
    have hknown : ∀ node ∈ walk, ∃ name, node ∈ BoxNode.set name :: context.nearby name :=
      hwalk.forall_mem (fun _ ⟨text, _, hn⟩ => ⟨_, mem_of_boxNode? hn⟩)
        fun _ _ ⟨_, _, text, _, hn⟩ => ⟨_, mem_of_boxNode? hn⟩
    have hnode := hwalk.at_node fun a ha b hb hl => by
      obtain ⟨_, hna⟩ := hknown a ha
      obtain ⟨_, hnb⟩ := hknown b hb
      exact BoxContext.eq_of_label_eq hclear hna hnb hl
    exact ⟨hnode, hnode.cycleInReach⟩

def boxExtending (parent : String) : Box :=
  .mk { BoxSlots.record.blank with parent := some parent } fun _ => none

def paddedBox : Box :=
  .mk { BoxSlots.record.blank with padding := some (.number (.integer 1)) } fun _ => none

def sharedLabel : Theme where
  name := "Labels"
  version := .text "1"
  basedOn := none
  globals := .null
  sets := ⟨[], [], [], [("variants.x", boxExtending "$$x")]⟩
  components := [("boxSets", ⟨none, none, [("x", ⟨some (.inline paddedBox), [], none⟩)]⟩)]
  info := .null
  assets := none

theorem boxNode?_sharedLabel :
    sharedLabel.boxNode? (.component "boxSets") (referenceName "$$variants.x") =
        some (.set "variants.x") ∧
      sharedLabel.boxNode? (.component "boxSets") (referenceName "$$x") =
        some (.variant "boxSets" "x") := by
  decide

theorem edge_sharedLabel {node next : BoxNode}
    (h : sharedLabel.BoxEdge (.component "boxSets") node next) :
    node = .set "variants.x" ∧ next = .variant "boxSets" "x" := by
  obtain ⟨source, hs, text, ht, hn⟩ := h
  cases node with
  | part name => cases hs
  | set name =>
    obtain ⟨box, hb, rfl⟩ := Option.map_eq_some_iff.1 hs
    obtain ⟨rfl, rfl⟩ : name = "variants.x" ∧ box = boxExtending "$$x" := by
      simpa [sharedLabel] using Table.mem_of_find? hb
    cases ht with
    | parent extended =>
      cases extended
      exact ⟨rfl, Option.some.inj (hn.symm.trans boxNode?_sharedLabel.2)⟩
    | state declared _ => cases declared
  | variant owner name =>
    obtain ⟨component, hc, hs⟩ := Option.bind_eq_some_iff.1 hs
    obtain ⟨variant, hv, hs⟩ := Option.bind_eq_some_iff.1 hs
    obtain ⟨rfl, rfl⟩ : owner = "boxSets" ∧
        component = ⟨none, none, [("x", ⟨some (.inline paddedBox), [], none⟩)]⟩ := by
      simpa [sharedLabel] using Table.mem_of_find? hc
    obtain ⟨rfl, rfl⟩ : name = "x" ∧ variant = ⟨some (.inline paddedBox), [], none⟩ := by
      simpa using Table.mem_of_find? hv
    cases hs
    cases ht with
    | parent extended => cases extended
    | state declared _ => cases declared

theorem boxCss_sharedLabel :
    sharedLabel.boxCss (.component "boxSets") (.reference "$$variants.x") =
      .error (.cycle .boxes ["boxSets.variants.x", "boxSets.variants.x"]) := by
  obtain ⟨hset, hvariant⟩ := boxNode?_sharedLabel
  have hinner : sharedLabel.namedBoxStyles (.component "boxSets") ["boxSets.variants.x"] "$$x" =
      .error (.cycle .boxes ["boxSets.variants.x", "boxSets.variants.x"]) := by
    rw [namedBoxStyles_of_node hvariant rfl, if_pos (by decide)]
    rfl
  rw [boxCss, sourceStyles, namedBoxStyles_of_node hset rfl, if_neg (by decide)]
  exact sourceStyles_of_parent_error rfl hinner

/-- Labels that are the same are reported as a cycle where there is none. -/
theorem shared_label_reported :
    sharedLabel.boxCss (.component "boxSets") (.reference "$$variants.x") =
      .error (.cycle .boxes ["boxSets.variants.x", "boxSets.variants.x"]) ∧
    ¬ CycleInReach (sharedLabel.BoxEdge (.component "boxSets"))
      (sharedLabel.RefersTo (.component "boxSets") (.reference "$$variants.x")) ∧
    (BoxContext.component "boxSets").Ambiguous := by
  have hacyclic : ¬ CycleInReach (sharedLabel.BoxEdge (.component "boxSets"))
      (sharedLabel.RefersTo (.component "boxSets") (.reference "$$variants.x")) := by
    rintro ⟨_, node, _, _, hc⟩
    obtain ⟨_, hfirst, _⟩ := TransGen.head'_iff.1 hc
    obtain ⟨_, _, hlast⟩ := TransGen.tail'_iff.1 hc
    have hends := (edge_sharedLabel hfirst).1.symm.trans (edge_sharedLabel hlast).2
    cases hends
  refine ⟨boxCss_sharedLabel, hacyclic, Classical.byContradiction fun hclear => ?_⟩
  obtain ⟨_, _, _, hexact⟩ :=
    (box_cycles_detected sharedLabel (.component "boxSets") (.reference "$$variants.x")).2 _
      boxCss_sharedLabel
  exact hacyclic (hexact hclear).2

end Theme

end Theming
