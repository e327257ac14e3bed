import Theming.Proofs.Cycles
import Theming.Proofs.Failure
import Theming.Variables.Globals

/-! Cycles of variables. A path leads to the paths of the references in the text that it ends at.
Resolving gives up exactly if a cycle of this graph is in reach, and it reports a walk into it. -/

namespace Theming

open Relation Trail

variable {lookup : String → Except ThemeError (Option Value)} {hook : Hook}

theorem failsIn_substitute {P : ThemeError → Prop} {text : String}
    (hl : ∀ next ∈ referencedPaths text.toList, FailsIn P (lookup next))
    (hh : ∀ value, FailsIn P (hook value)) : FailsIn P (Globals.substitute lookup hook text) := by
  refine FailsIn.bind (FailsIn.mapM fun piece hp => ?_) fun texts => .ok _
  cases piece with
  | literal c => exact .ok [c]
  | reference path =>
    refine (hl path (mem_referencedPaths.2 hp)).bind fun found => ?_
    cases found with
    | none => exact .ok []
    | some value => exact (hh value).bind fun text => .ok _

theorem lookup_ok_of_substitute {text resolved : String}
    (h : Globals.substitute lookup hook text = .ok resolved) :
    ∀ next ∈ referencedPaths text.toList, ∃ found, lookup next = .ok found := by
  intro next hn
  obtain ⟨texts, ht, _⟩ := bind_eq_ok_iff.1 h
  obtain ⟨rendered, hr⟩ := ok_of_mapM ht _ (mem_referencedPaths.1 hn)
  obtain ⟨found, hf, _⟩ := bind_eq_ok_iff.1 hr
  exact ⟨found, hf⟩

namespace Globals

variable {globals : Globals}

/-- The text at the end of one path refers to the other path. -/
def LeadsTo (globals : Globals) (path next : String) : Prop :=
  ∃ text, Value.at? globals path = some (.text text) ∧ next ∈ referencedPaths text.toList

theorem failsIn_lookupFrom (globals : Globals) (trail : Trail) (path : String) :
    FailsIn (GivesUp .variables globals.LeadsTo id trail path) (globals.lookupFrom trail path) := by
  induction trail, path using lookupFrom.induct globals with
  | case1 trail path seen =>
    rw [lookupFrom_eq, if_pos seen]
    exact .error (.here seen)
  | case2 trail path fresh text found target single ih =>
    have hleads : globals.LeadsTo path target :=
      ⟨text, found, mem_referencedPaths.2 (by simp [single])⟩
    rw [lookupFrom_eq, if_neg fresh, found]
    simp only [single]
    exact ih.mono fun error h => h.step hleads
  | case3 trail path fresh text found several ih =>
    have hsubstitute : FailsIn (GivesUp .variables globals.LeadsTo id trail path)
        (substitute (globals.lookupFrom (trail ++ [path])) .scalar text) := by
      refine failsIn_substitute (fun next hn => ?_) fun value => .ok _
      exact (ih next (mem_referencedPaths.1 hn)).mono fun error h => h.step ⟨text, found, hn⟩
    rw [lookupFrom_eq, if_neg fresh, found]
    simp only
    exact hsubstitute.bind fun resolved => .ok _
  | case4 trail path fresh other =>
    rw [lookupFrom_eq, if_neg fresh]
    split
    · next text found => exact absurd found (other text)
    · exact .ok _

theorem explores_lookupFrom (globals : Globals) : Explores globals.LeadsTo id
    fun trail path => ∃ found, globals.lookupFrom trail path = .ok found := by
  rintro trail path ⟨found, h⟩
  rw [lookupFrom_eq] at h
  split at h
  · cases h
  · next fresh =>
    refine ⟨fresh, fun next ⟨text, ht, hn⟩ => ?_⟩
    rw [ht] at h
    simp only at h
    split at h
    · next target single =>
      have hnext : next = target := by
        simpa [single] using mem_referencedPaths.1 hn
      exact ⟨found, hnext ▸ h⟩
    · obtain ⟨resolved, hr, _⟩ := bind_eq_ok_iff.1 h
      exact lookup_ok_of_substitute hr next hn

/-- A computation that starts at some paths gives up exactly if a cycle is in reach, and reports a
walk into it. -/
structure DetectsCycles {α : Type} (globals : Globals) (starts : List String)
    (result : Except ThemeError α) : Prop where
  fails : (∃ walk, result = .error (.cycle .variables walk)) ↔
    CycleInReach globals.LeadsTo (· ∈ starts)
  succeeds : (∃ a, result = .ok a) ↔ ¬ CycleInReach globals.LeadsTo (· ∈ starts)
  walks : ∀ walk, result = .error (.cycle .variables walk) →
    ComesBack globals.LeadsTo id (· ∈ starts) walk

theorem detectsCycles {α : Type} {starts : List String} {result : Except ThemeError α}
    (hf : FailsIn (fun error => ∃ start ∈ starts,
      GivesUp .variables globals.LeadsTo id [] start error) result)
    (hs : ∀ a, result = .ok a → ∀ start ∈ starts, ∃ found,
      globals.lookupFrom [] start = .ok found) :
    globals.DetectsCycles starts result := by
  have hwalks (walk : List String) (h : result = .error (.cycle .variables walk)) :
      ComesBack globals.LeadsTo id (· ∈ starts) walk := by
    obtain ⟨start, hm, walk, hw, he⟩ := hf _ h
    simp only [List.map_id, List.nil_append, ThemeError.cycle.injEq, true_and] at he
    exact he ▸ hw.comesBack hm
  cases result with
  | ok a =>
    have hnone : ¬ CycleInReach globals.LeadsTo (· ∈ starts) :=
      (explores_lookupFrom globals).not_cycleInReach (hs a rfl)
    exact ⟨iff_of_false (fun ⟨_, h⟩ => nomatch h) hnone, iff_of_true ⟨a, rfl⟩ hnone, hwalks⟩
  | error error =>
    obtain ⟨_, _, walk, _, rfl⟩ := hf error rfl
    have hcycle := (hwalks _ rfl).cycleInReach
    exact ⟨iff_of_true ⟨_, rfl⟩ hcycle, iff_of_false (fun ⟨_, h⟩ => nomatch h) (fun h => h hcycle),
      hwalks⟩

/-- Resolving a text and looking up a path always come to an end. They report a cycle exactly if
one is in reach, with a walk into it, and have a result otherwise. -/
theorem cycle_errors_exact (globals : Globals) :
    (∀ text, globals.DetectsCycles (referencedPaths text.toList) (globals.resolve text)) ∧
    ∀ reference, globals.DetectsCycles [String.ofList (pathOf reference.toList)]
      (globals.lookup reference) := by
  have hfails (path : String) := failsIn_lookupFrom globals [] path
  refine ⟨fun text => detectsCycles ?_ fun resolved h => lookup_ok_of_substitute h,
    fun reference => detectsCycles ?_ fun found h => ?_⟩
  · exact failsIn_substitute
      (fun next hn => (hfails next).mono fun error h => ⟨next, hn, h⟩) fun value => .ok _
  · exact (hfails _).mono fun error h => ⟨_, List.mem_singleton_self _, h⟩
  · exact List.forall_mem_singleton.2 ⟨found, h⟩

def reportedWalk? {α : Type} : Except ThemeError α → Option (List String)
  | .error (.cycle .variables walk) => some walk
  | _ => none

theorem eq_of_reportedWalk? {α : Type} {result : Except ThemeError α} {walk : List String}
    (h : reportedWalk? result = some walk) : result = .error (.cycle .variables walk) := by
  unfold reportedWalk? at h
  split at h
  · cases h
    rfl
  · cases h

/-- The border refers to the unit twice, and the inner and the outer width to each other. -/
def widths : Globals := .object [
  ("unit", .number (.integer 4)), ("edge", .object [("left", .text "$$unit|px")]),
  ("border", .text "$$edge.left|, $$unit"), ("outer", .text "over $$inner.width"),
  ("inner", .object [("width", .text "$$outer|")])]

theorem shared_unit_and_mutual_widths :
    widths.resolve "$$border|; $$edge.left" = .ok "4px, 4; 4px" ∧
    ¬ CycleInReach widths.LeadsTo (· ∈ ["border", "edge.left"]) ∧
    widths.resolve "a $$unit|px $$outer" =
      .error (.cycle .variables ["outer", "inner.width", "outer"]) ∧
    ComesBack widths.LeadsTo id (· ∈ ["unit", "outer"]) ["outer", "inner.width", "outer"] ∧
    widths.lookup "$$inner.width|" =
      .error (.cycle .variables ["inner.width", "outer", "inner.width"]) ∧
    CycleInReach widths.LeadsTo (· ∈ ["inner.width"]) := by
  obtain ⟨resolves, looksUp⟩ := cycle_errors_exact widths
  have hshared := resolves "$$border|; $$edge.left"
  have hmutual := resolves "a $$unit|px $$outer"
  have hinner := looksUp "$$inner.width|"
  have hborder : referencedPaths "$$border|; $$edge.left".toList = ["border", "edge.left"] := by
    decide +kernel
  have houter : referencedPaths "a $$unit|px $$outer".toList = ["unit", "outer"] := by
    decide +kernel
  have hpath : String.ofList (pathOf "$$inner.width|".toList) = "inner.width" := by decide +kernel
  rw [hborder] at hshared
  rw [houter] at hmutual
  rw [hpath] at hinner
  have hok : widths.resolve "$$border|; $$edge.left" = .ok "4px, 4; 4px" :=
    eq_ok_of_toOption (by decide +kernel)
  have hwalk : reportedWalk? (widths.resolve "a $$unit|px $$outer") =
      some ["outer", "inner.width", "outer"] := by decide +kernel
  have hlookup : reportedWalk? (widths.lookup "$$inner.width|") =
      some ["inner.width", "outer", "inner.width"] := by decide +kernel
  have hcycle := eq_of_reportedWalk? hwalk
  have hback := eq_of_reportedWalk? hlookup
  exact ⟨hok, hshared.succeeds.1 ⟨_, hok⟩, hcycle, hmutual.walks _ hcycle, hback,
    hinner.fails.1 ⟨_, hback⟩⟩

end Globals

end Theming
