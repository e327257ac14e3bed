import Mathlib.Data.List.Flatten
import Theming.Proofs.Compile.Layering
import Theming.Proofs.Css.Stylesheet

/-! What the text of a stylesheet is made of. It holds the rules of the classes that have been asked
for since it was last taken out, in the order of their first requests and none of them twice. The
rules of a class are left out if they stand in the text already, be it inside a value. -/

namespace Theming.Stylesheet

/-- The maps that have been asked for since the text was last taken out. -/
def recent (steps : List Step) : List Styles :=
  steps.foldl (fun maps step => match step with
    | .emit more => maps ++ [layered more]
    | .extract => []) []

def classes (sheet : Stylesheet) (maps : List Styles) : List String :=
  (maps.map sheet.className).eraseDups

def rulesOf (sheet : Stylesheet) (name : String) : String := (sheet.rules.find? name).getD ""

/-- The classes whose rules are collected: all but those whose rules stand somewhere in the text of
the collected ones before them. -/
def collected (rules : String → String) (names : List String) : List String :=
  names.foldl (fun done name =>
    if Text.contains (String.join (done.map rules)) (rules name) then done else done ++ [name]) []

section

variable {rules : String → String}

theorem collected_concat (names : List String) (name : String) :
    collected rules (names ++ [name]) =
      if Text.contains (String.join ((collected rules names).map rules)) (rules name)
      then collected rules names else collected rules names ++ [name] := by
  rw [collected, List.foldl_append]
  rfl

theorem collected_sublist (names : List String) : (collected rules names).Sublist names := by
  induction names using List.reverseRecOn with
  | nil => exact .slnil
  | append_singleton names name ih =>
    rw [collected_concat]
    split
    · exact ih.trans (List.sublist_append_left names [name])
    · exact ih.append (List.Sublist.refl [name])

theorem collected_congr {rules' : String → String} {names : List String}
    (h : ∀ name ∈ names, rules name = rules' name) :
    collected rules names = collected rules' names := by
  induction names using List.reverseRecOn with
  | nil => rfl
  | append_singleton names name ih =>
    have hbefore := ih fun n hn => h n (List.mem_append_left _ hn)
    have hname : rules name = rules' name := h name (by simp)
    have hmap : (collected rules names).map rules = (collected rules' names).map rules' := by
      rw [← hbefore]
      exact List.map_congr_left fun n hn =>
        h n (List.mem_append_left _ ((collected_sublist names).subset hn))
    rw [collected_concat, collected_concat, hmap, hname, hbefore]

theorem rules_infix_of_mem {names : List String} {name : String} (h : name ∈ names) :
    (rules name).toList <:+: (String.join ((collected rules names).map rules)).toList := by
  induction names using List.reverseRecOn with
  | nil => cases h
  | append_singleton names last ih =>
    rw [collected_concat]
    rcases List.mem_append.1 h with hm | hm
    · have hbefore := ih hm
      split
      · exact hbefore
      · rw [List.map_append, String.join_append, String.toList_append]
        exact hbefore.trans (List.prefix_append _ _).isInfix
    · rw [List.mem_singleton.1 hm]
      split
      · next hc => exact Text.contains_iff.1 hc
      · rw [List.map_append, String.join_append, String.toList_append]
        simpa using (List.suffix_append _ (rules last).toList).isInfix

theorem not_mem_collected_iff {names before after : List String} {name : String}
    (hd : names.Nodup) (h : names = before ++ name :: after) :
    name ∉ collected rules names ↔
      (rules name).toList <:+: (String.join ((collected rules before).map rules)).toList := by
  subst h
  have hbefore : name ∉ before := fun hm => (List.nodup_append.1 hd).2.2 name hm name (by simp) rfl
  have hafter : name ∉ after := (List.nodup_cons.1 (List.nodup_append.1 hd).2.1).1
  -- What comes behind the class only adds itself.
  have hrest (rest : List String) (hr : name ∉ rest) :
      name ∈ collected rules (before ++ [name] ++ rest) ↔ name ∈ collected rules (before ++ [name]) := by
    induction rest using List.reverseRecOn with
    | nil => simp
    | append_singleton rest last ih =>
      have hlast : name ≠ last := fun he => hr (by simp [he])
      have hih := ih fun hm => hr (List.mem_append_left _ hm)
      rw [← List.append_assoc, collected_concat]
      split
      · exact hih
      · simpa [hlast] using hih
  have hsplit : before ++ name :: after = before ++ [name] ++ after := by simp
  rw [hsplit, hrest after hafter, collected_concat, ← Text.contains_iff]
  have hnew : name ∉ collected rules before :=
    fun hm => hbefore ((collected_sublist before).subset hm)
  split
  · next hc => exact iff_of_true hnew hc
  · next hc => exact iff_of_false (fun hn => hn (by simp)) hc

theorem length_join_collected_le (rules : String → String) (names : List String) :
    (String.join ((collected rules names).map rules)).toList.length ≤
      (String.join (names.map rules)).toList.length := by
  rw [String.toList_join, String.toList_join]
  exact (((collected_sublist names).map rules).flatMap String.toList).length_le

/-- The text holds the rules of all classes one after the other just if those of none of them stand
inside the rules of the classes before it. -/
theorem join_collected_eq_iff (names : List String) :
    String.join ((collected rules names).map rules) = String.join (names.map rules) ↔
      ∀ before name after, names = before ++ name :: after → rules name ≠ "" →
        ¬ (rules name).toList <:+: (String.join (before.map rules)).toList := by
  induction names using List.reverseRecOn with
  | nil => simp [collected]
  | append_singleton names last ih =>
    have hsplits : (∀ before name after, names ++ [last] = before ++ name :: after →
        rules name ≠ "" → ¬ (rules name).toList <:+: (String.join (before.map rules)).toList) ↔
        (∀ before name after, names = before ++ name :: after →
          rules name ≠ "" → ¬ (rules name).toList <:+: (String.join (before.map rules)).toList) ∧
        (rules last ≠ "" → ¬ (rules last).toList <:+: (String.join (names.map rules)).toList) := by
      constructor
      · exact fun h => ⟨fun before name after he => h before name (after ++ [last]) (by simp [he]),
          h names last [] rfl⟩
      · rintro ⟨hbefore, hlast⟩ before name after he
        cases after using List.reverseRecOn with
        | nil =>
          obtain ⟨rfl, hl⟩ := List.append_inj' he rfl
          cases hl
          exact hlast
        | append_singleton after other =>
          have he' : names ++ [last] = (before ++ name :: after) ++ [other] := by simpa using he
          exact hbefore before name after (List.append_inj' he' rfl).1
    have hjoin : String.join ((names ++ [last]).map rules) =
        String.join (names.map rules) ++ rules last := by
      simp
    rw [hsplits, ← ih, hjoin, collected_concat]
    split
    · next hc =>
      rw [Text.contains_iff] at hc
      constructor
      · intro he
        have hlength := congrArg (fun text => text.toList.length) he
        have hle := length_join_collected_le rules names
        simp only [String.toList_append, List.length_append] at hlength
        have hempty : rules last = "" := by
          have hzero : (rules last).toList.length = 0 := by omega
          rwa [List.length_eq_zero_iff, String.toList_eq_nil_iff] at hzero
        exact ⟨by simpa [hempty] using he, fun hne => absurd hempty hne⟩
      · rintro ⟨he, hlast⟩
        by_cases hempty : rules last = ""
        · simpa [hempty] using he
        · exact absurd (he ▸ hc) (hlast hempty)
    · next hc =>
      rw [Text.contains_iff] at hc
      have happend : String.join ((collected rules names ++ [last]).map rules) =
          String.join ((collected rules names).map rules) ++ rules last := by
        simp
      rw [happend, String.append_left_inj]
      exact ⟨fun he => ⟨he, fun _ => he ▸ hc⟩, fun h => h.1⟩

end

/-- A stylesheet whose text comes from the requests for some maps. -/
structure Collects (sheet : Stylesheet) (maps : List Styles) : Prop where
  registered : ∀ name ∈ sheet.classes maps, ∃ rules, sheet.rules.find? name = some rules
  css : sheet.css =
    String.join ((collected sheet.rulesOf (sheet.classes maps)).map sheet.rulesOf)

theorem nodup_classes (sheet : Stylesheet) (maps : List Styles) : (sheet.classes maps).Nodup :=
  nodup_eraseDups _

theorem mem_classes {sheet : Stylesheet} {maps : List Styles} {name : String} :
    name ∈ sheet.classes maps ↔ ∃ styles ∈ maps, sheet.className styles = name := by
  simp [classes]

theorem rulesOf_eq {sheet : Stylesheet} {name rules : String}
    (h : sheet.rules.find? name = some rules) : sheet.rulesOf name = rules := by
  rw [rulesOf, h]
  rfl

theorem Collects.rules_infix {sheet : Stylesheet} {maps : List Styles} (h : sheet.Collects maps)
    {name : String} (hn : name ∈ sheet.classes maps) :
    (sheet.rulesOf name).toList <:+: sheet.css.toList := by
  rw [h.css]
  exact rules_infix_of_mem hn

/-- A class that has been asked for before adds nothing to the text. -/
theorem Collects.css_emitClass {sheet : Stylesheet} {maps more : List Styles}
    (h : sheet.Collects maps) (hn : sheet.className (layered more) ∈ sheet.classes maps) :
    (sheet.emitClass more).2.css = sheet.css := by
  obtain ⟨rules, hr⟩ := h.registered _ hn
  have hrules : sheet.rulesFor more = sheet.rulesOf (sheet.className (layered more)) := by
    rw [rulesFor, rulesOf, hr]
    rfl
  have hinfix := h.rules_infix hn
  rw [← hrules, ← Text.contains_iff] at hinfix
  rw [emitClass_eq]
  exact if_pos hinfix

theorem Collects.emitClass {sheet : Stylesheet} {maps : List Styles} (h : sheet.Collects maps)
    (more : List Styles) : (sheet.emitClass more).2.Collects (maps ++ [layered more]) := by
  have hsame (styles : Styles) :
      (sheet.emitClass more).2.className styles = sheet.className styles := by
    rw [emitClass_eq]
    rfl
  have hclasses : (sheet.emitClass more).2.classes (maps ++ [layered more]) =
      if sheet.className (layered more) ∈ sheet.classes maps then sheet.classes maps
      else sheet.classes maps ++ [sheet.className (layered more)] := by
    have hmap : (maps ++ [layered more]).map (sheet.emitClass more).2.className =
        maps.map sheet.className ++ [sheet.className (layered more)] := by
      simp [hsame]
    rw [classes, hmap, eraseDups_concat]
    simp only [classes, List.mem_eraseDups]
  have hnew : (sheet.emitClass more).2.rules.find? (sheet.className (layered more)) =
      some (sheet.rulesFor more) := by
    rw [emitClass_eq]
    exact Table.find?_put_self _ _ _
  have hold (name : String) (hn : name ∈ sheet.classes maps) :
      (sheet.emitClass more).2.rules.find? name = sheet.rules.find? name := by
    obtain ⟨rules, hr⟩ := h.registered name hn
    rw [hr]
    exact (grown_emitClass sheet more).rules name rules hr
  have hrules (name : String) (hn : name ∈ sheet.classes maps) :
      (sheet.emitClass more).2.rulesOf name = sheet.rulesOf name := by
    rw [rulesOf, rulesOf, hold name hn]
  have hcollected := collected_congr hrules
  have hmap : (collected sheet.rulesOf (sheet.classes maps)).map (sheet.emitClass more).2.rulesOf =
      (collected sheet.rulesOf (sheet.classes maps)).map sheet.rulesOf :=
    List.map_congr_left fun name hn => hrules name ((collected_sublist _).subset hn)
  by_cases hn : sheet.className (layered more) ∈ sheet.classes maps
  · rw [if_pos hn] at hclasses
    refine ⟨fun name hm => ?_, ?_⟩
    · rw [hclasses] at hm
      rw [hold name hm]
      exact h.registered name hm
    · rw [hclasses, hcollected, hmap, h.css_emitClass hn, h.css]
  · rw [if_neg hn] at hclasses
    refine ⟨fun name hm => ?_, ?_⟩
    · rw [hclasses] at hm
      rcases List.mem_append.1 hm with hm | hm
      · rw [hold name hm]
        exact h.registered name hm
      · rw [List.mem_singleton.1 hm]
        exact ⟨_, hnew⟩
    · have hlast := rulesOf_eq hnew
      have hcss : (sheet.emitClass more).2.css =
          if Text.contains sheet.css (sheet.rulesFor more) then sheet.css
          else sheet.css ++ sheet.rulesFor more := by
        rw [emitClass_eq]
      rw [hclasses, collected_concat, hcollected, hmap, hlast, hcss, h.css]
      split
      · rw [hmap]
      · simp [hlast, hmap]

theorem run_concat (sheet : Stylesheet) (steps : List Step) (last : Step) :
    sheet.run (steps ++ [last]) = (sheet.run steps).step last := by
  simp [run, List.foldl_append]

theorem recent_concat (steps : List Step) (last : Step) :
    recent (steps ++ [last]) = match last with
      | .emit more => recent steps ++ [layered more]
      | .extract => [] := by
  cases last <;> simp [recent, List.foldl_append]

theorem collects_run (classPrefix : String) (steps : List Step) :
    ((empty classPrefix).run steps).Collects (recent steps) := by
  induction steps using List.reverseRecOn with
  | nil => exact ⟨by simp [classes, recent], rfl⟩
  | append_singleton steps last ih =>
    rw [run_concat, recent_concat]
    cases last with
    | emit more => exact ih.emitClass more
    | extract => exact ⟨by simp [classes], rfl⟩

theorem registers_run (classPrefix : String) (steps : List Step) :
    ((empty classPrefix).run steps).Registers (requests steps) := by
  have hfresh : (empty classPrefix).Registers [] := fun name => rfl
  simpa using hfresh.run steps

theorem Registers.first_of_mem_classes {sheet : Stylesheet} {requested maps : List Styles}
    (hr : sheet.Registers requested) (hc : sheet.Collects maps) {name : String}
    (hn : name ∈ sheet.classes maps) : ∃ first,
      requested.find? (fun styles => sheet.className styles == name) = some first ∧
      sheet.rules.find? name = some (first.ruleText ("." ++ name)) := by
  obtain ⟨rules, hrules⟩ := hc.registered name hn
  have hfind := hr name
  rw [hrules] at hfind
  obtain ⟨first, hfirst, htext⟩ := Option.map_eq_some_iff.1 hfind.symm
  exact ⟨first, hfirst, by rw [hrules, htext]⟩

theorem join_filter_rulesOf (sheet : Stylesheet) (names : List String) :
    String.join ((names.filter fun name => sheet.rulesOf name != "").map sheet.rulesOf) =
      String.join (names.map sheet.rulesOf) := by
  induction names with
  | nil => rfl
  | cons name rest ih =>
    by_cases h : sheet.rulesOf name = ""
    · simp [h, ih]
    · simp [h, ih]

/-- The text holds the rules of the first map of each class that was asked for since it was last
taken out, in the order of the first requests. A class is left out exactly if its rules stand
somewhere in the text of those before it, so nothing is missing just if that never happens. -/
theorem css_collects_requested (classPrefix : String) (steps : List Step) :
    let sheet := (empty classPrefix).run steps
    let names := sheet.classes (recent steps)
    let present := collected sheet.rulesOf names
    names.Nodup ∧
    (∀ name ∈ names, ∃ first,
      (requests steps).find? (fun styles => sheet.className styles == name) = some first ∧
      sheet.rules.find? name = some (first.ruleText ("." ++ name))) ∧
    sheet.css = String.join (present.map sheet.rulesOf) ∧ present.Sublist names ∧
    (∀ before name after, names = before ++ name :: after → (name ∉ present ↔
      (sheet.rulesOf name).toList <:+:
        (String.join ((collected sheet.rulesOf before).map sheet.rulesOf)).toList)) ∧
    (sheet.css = String.join
        ((names.filter fun name => sheet.rulesOf name != "").map sheet.rulesOf) ↔
      ∀ before name after, names = before ++ name :: after → sheet.rulesOf name ≠ "" →
        ¬ (sheet.rulesOf name).toList <:+: (String.join (before.map sheet.rulesOf)).toList) := by
  intro sheet names present
  have hcollects : sheet.Collects (recent steps) := collects_run classPrefix steps
  have hregisters : sheet.Registers (requests steps) := registers_run classPrefix steps
  have hnodup : names.Nodup := nodup_classes sheet _
  refine ⟨hnodup, fun name hn => hregisters.first_of_mem_classes hcollects hn, hcollects.css,
    collected_sublist names, fun before name after => not_mem_collected_iff hnodup, ?_⟩
  rw [hcollects.css, join_filter_rulesOf]
  exact join_collected_eq_iff names

def quoting : List Step :=
  [.emit [contentMap ".go3433634237\x7bcolor:red;\x7d"], .emit [[("color", .declaration "red")]]]

/-- The second class has been asked for and has rules, but they stand inside a value of the first. -/
theorem quoted_rules_left_out :
    let sheet := (empty "go").run quoting
    let names := sheet.classes (recent quoting)
    "go3433634237" ∈ names ∧ sheet.rulesOf "go3433634237" = ".go3433634237\x7bcolor:red;\x7d" ∧
      "go3433634237" ∉ collected sheet.rulesOf names ∧
      sheet.css ≠ String.join
        ((names.filter fun name => sheet.rulesOf name != "").map sheet.rulesOf) := by
  intro sheet names
  have hnames : names = ["go3167139195", "go3433634237"] := by decide +kernel
  have hrules : sheet.rulesOf "go3433634237" = ".go3433634237\x7bcolor:red;\x7d" := by
    decide +kernel
  have hpresent : collected sheet.rulesOf ["go3167139195"] = ["go3167139195"] := by decide +kernel
  have hinside : (sheet.rulesOf "go3433634237").toList <:+:
      (String.join (["go3167139195"].map sheet.rulesOf)).toList := by
    rw [← Text.contains_iff]
    decide +kernel
  obtain ⟨-, -, -, -, hleft, hall⟩ := css_collects_requested "go" quoting
  refine ⟨by rw [hnames]; simp, hrules, ?_, fun hcss => ?_⟩
  · exact (hleft [_] "go3433634237" [] hnames).2 (by rwa [hpresent])
  · exact hall.1 hcss [_] "go3433634237" [] hnames (by rw [hrules]; decide) hinside

end Theming.Stylesheet
