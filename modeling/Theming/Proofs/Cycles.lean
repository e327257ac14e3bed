import Mathlib.Data.List.Chain
import Theming.Error
import Theming.Trail

/-! Searches along the edges of a graph that carry a trail of the labels on their way. A search can
only succeed where no cycle is in reach, and the way of a search that gives up is a walk that has
come back to a label it had met before. -/

namespace Theming.Trail

variable {ν : Type} {edge : ν → ν → Prop} {label : ν → String} {trail : Trail} {node : ν}

open Relation

/-- The nodes where a search succeeds, behind the labels of a trail: their labels are new, and the
search succeeds along all their edges. -/
def Explores (edge : ν → ν → Prop) (label : ν → String) (succeeds : Trail → ν → Prop) : Prop :=
  ∀ trail node, succeeds trail node → label node ∉ trail ∧
    ∀ next, edge node next → succeeds (trail ++ [label node]) next

namespace Explores

variable {succeeds : Trail → ν → Prop} {last : ν}

theorem of_reflTransGen (h : Explores edge label succeeds) (hs : succeeds trail node)
    (hw : ReflTransGen edge node last) : ∃ more, succeeds (trail ++ more) last := by
  induction hw with
  | refl => exact ⟨[], by simpa using hs⟩
  | tail _ he ih =>
    obtain ⟨more, hm⟩ := ih
    have hnext := (h _ _ hm).2 _ he
    rw [List.append_assoc] at hnext
    exact ⟨_, hnext⟩

theorem fresh (h : Explores edge label succeeds) (hs : succeeds trail node)
    (hw : ReflTransGen edge node last) : label last ∉ trail := by
  obtain ⟨more, hm⟩ := h.of_reflTransGen hs hw
  exact fun hl => (h _ _ hm).1 (List.mem_append_left more hl)

theorem label_ne (h : Explores edge label succeeds) (hs : succeeds trail node)
    (hw : TransGen edge node last) : label last ≠ label node := by
  obtain ⟨next, he, hrest⟩ := TransGen.head'_iff.1 hw
  have hnew := h.fresh ((h _ _ hs).2 next he) hrest
  exact fun hl => hnew (by simp [hl])

theorem acyclic (h : Explores edge label succeeds) (hs : succeeds trail node)
    (hw : ReflTransGen edge node last) : ¬ TransGen edge last last := by
  obtain ⟨more, hm⟩ := h.of_reflTransGen hs hw
  exact fun hc => h.label_ne hm hc rfl

end Explores

/-- The nodes on the way of a search that ends where it meets a label again. -/
inductive Returns (edge : ν → ν → Prop) (label : ν → String) : Trail → ν → List ν → Prop where
  | here {trail : Trail} {node : ν} (seen : label node ∈ trail) :
      Returns edge label trail node [node]
  | step {trail : Trail} {node next : ν} {walk : List ν} (along : edge node next)
      (rest : Returns edge label (trail ++ [label node]) next walk) :
      Returns edge label trail node (node :: walk)

namespace Returns

variable {walk : List ν}

theorem head? (h : Returns edge label trail node walk) : walk.head? = some node := by
  cases h <;> rfl

theorem isChain (h : Returns edge label trail node walk) : walk.IsChain edge := by
  induction h with
  | here _ => exact .singleton _
  | step along rest ih =>
    refine List.isChain_cons.2 ⟨fun next hn => ?_, ih⟩
    rw [rest.head?] at hn
    cases hn
    exact along

/-- The last label of the way stands earlier on it, or in the trail. -/
theorem exists_last (h : Returns edge label trail node walk) :
    ∃ earlier last, walk = earlier ++ [last] ∧ label last ∈ trail ++ earlier.map label := by
  induction h with
  | @here trail node seen => exact ⟨[], node, rfl, by simpa using seen⟩
  | @step trail node _ _ _ _ ih =>
    obtain ⟨earlier, last, rfl, hl⟩ := ih
    exact ⟨node :: earlier, last, rfl, by simpa using hl⟩

end Returns

/-- The error of a search that meets a label again, with the labels of its way behind the trail. -/
def GivesUp (kind : CycleKind) (edge : ν → ν → Prop) (label : ν → String) (trail : Trail) (node : ν)
    (error : ThemeError) : Prop :=
  ∃ walk, Returns edge label trail node walk ∧ error = .cycle kind (trail ++ walk.map label)

theorem GivesUp.here {kind : CycleKind} (seen : label node ∈ trail) :
    GivesUp kind edge label trail node (.cycle kind (trail ++ [label node])) :=
  ⟨[node], .here seen, rfl⟩

theorem GivesUp.step {kind : CycleKind} {next : ν} {error : ThemeError} (along : edge node next)
    (h : GivesUp kind edge label (trail ++ [label node]) next error) :
    GivesUp kind edge label trail node error := by
  obtain ⟨walk, hw, rfl⟩ := h
  exact ⟨node :: walk, .step along hw, by simp⟩

def CycleInReach (edge : ν → ν → Prop) (start : ν → Prop) : Prop :=
  ∃ first node, start first ∧ ReflTransGen edge first node ∧ TransGen edge node node

/-- A walk from one of the starts whose last key stands earlier on it. -/
structure ComesBack {κ : Type} (edge : ν → ν → Prop) (key : ν → κ) (start : ν → Prop)
    (walk : List ν) : Prop where
  isChain : walk.IsChain edge
  starts : ∃ first, start first ∧ walk.head? = some first
  returns : ∃ earlier last, walk = earlier ++ [last] ∧ key last ∈ earlier.map key

theorem Returns.comesBack {start : ν → Prop} {walk : List ν}
    (h : Returns edge label [] node walk) (hs : start node) : ComesBack edge label start walk := by
  obtain ⟨earlier, last, he, hl⟩ := h.exists_last
  exact ⟨h.isChain, ⟨node, hs, h.head?⟩, earlier, last, he, by simpa using hl⟩

namespace ComesBack

variable {κ : Type} {key : ν → κ} {start : ν → Prop} {walk : List ν}

theorem forall_mem {P : ν → Prop} (h : ComesBack edge key start walk)
    (hs : ∀ first, start first → P first) (he : ∀ node next, edge node next → P next) :
    ∀ node ∈ walk, P node := by
  refine h.isChain.induction P walk (fun node next along _ => he node next along) fun hne => ?_
  obtain ⟨first, hf, hhead⟩ := h.starts
  rw [(List.head_eq_iff_head?_eq_some hne).2 hhead]
  exact hs first hf

/-- If keys tell the nodes of the walk apart, it ends at a node where it has been before. -/
theorem at_node (h : ComesBack edge key start walk)
    (hk : ∀ a ∈ walk, ∀ b ∈ walk, key a = key b → a = b) : ComesBack edge id start walk := by
  obtain ⟨earlier, last, rfl, hl⟩ := h.returns
  obtain ⟨node, hn, he⟩ := List.mem_map.1 hl
  have hsame := hk node (List.mem_append_left _ hn) last (by simp) he
  exact ⟨h.isChain, h.starts, earlier, last, rfl, by simpa using hsame ▸ hn⟩

theorem cycleInReach (h : ComesBack edge id start walk) : CycleInReach edge start := by
  obtain ⟨hchain, ⟨first, hf, hhead⟩, earlier, last, rfl, hl⟩ := h
  obtain ⟨before, after, rfl⟩ := List.append_of_mem (by simpa using hl : last ∈ earlier)
  have hsplit : before ++ last :: after ++ [last] =
      (before ++ [last]) ++ (after ++ [last]) := by simp
  have hway : (before ++ [last]).IsChain edge := by
    rw [hsplit] at hchain
    exact hchain.left_of_append
  have hcycle : (last :: (after ++ [last])).IsChain edge := by
    rw [List.append_assoc] at hchain
    exact hchain.right_of_append
  refine ⟨first, last, hf, ?_, ?_⟩
  · cases before with
    | nil =>
      cases hhead
      exact .refl
    | cons other rest =>
      cases hhead
      exact List.relationReflTransGen_of_exists_isChain_cons _ hway (by simp)
  · cases after with
    | nil => exact .single (by simpa using hcycle)
    | cons next rest =>
      have hrest : edge last next ∧ (next :: (rest ++ [last])).IsChain edge := by
        simpa using hcycle
      exact .head' hrest.1
        (List.relationReflTransGen_of_exists_isChain_cons _ hrest.2 (by simp))

end ComesBack

/-- A search that succeeds at all starts has no cycle in reach. -/
theorem Explores.not_cycleInReach {succeeds : Trail → ν → Prop} {start : ν → Prop}
    (h : Explores edge label succeeds) (hs : ∀ first, start first → succeeds [] first) :
    ¬ CycleInReach edge start := by
  rintro ⟨first, last, hf, hw, hc⟩
  exact h.acyclic (hs first hf) hw hc

/-- A search from the node meets no label of the other trail that is not on this one. -/
def Covers (edge : ν → ν → Prop) (label : ν → String) (trail other : Trail) (node : ν) : Prop :=
  ∀ last, ReflTransGen edge node last → label last ∈ other → label last ∈ trail

namespace Covers

variable {other : Trail} {next : ν}

theorem nil (trail : Trail) (node : ν) : Covers edge label trail [] node :=
  fun _ _ hl => (List.not_mem_nil hl).elim

theorem fresh (h : Covers edge label trail other node) (hn : label node ∉ trail) :
    label node ∉ other :=
  fun hl => hn (h node .refl hl)

theorem step (h : Covers edge label trail other node) (along : edge node next) :
    Covers edge label (trail ++ [label node]) (other ++ [label node]) next := by
  intro last hw hl
  rcases List.mem_append.1 hl with hl | hl
  · exact List.mem_append_left _ (h last (hw.head along) hl)
  · exact List.mem_append_right _ hl

end Covers

theorem Explores.covers {succeeds : Trail → ν → Prop} {next : ν}
    (h : Explores edge label succeeds) (hs : succeeds [] next) (along : edge node next)
    (hk : ∀ last, ReflTransGen edge next last → label last = label node → last = node) :
    Covers edge label [] [label node] next := by
  intro last hw hl
  obtain rfl := hk last hw (by simpa using hl)
  exact absurd (TransGen.tail' hw along) (h.acyclic hs .refl)

end Theming.Trail
