import Theming.Proofs.Compile.RuleText
import Theming.Proofs.Css.Collected
import Theming.Proofs.Css.Order
import Theming.Proofs.Manager

/-! The rules behind the classes of a loaded theme. A class that is not empty was given out for a
map with entries, and the stylesheet holds the rules of the first such map. These have the class as
a selector if the map declares a property somewhere. Blocks that hold nothing are entries as well,
so a map made of such blocks has a class without rules. -/

namespace Theming

open Compile Selector Styles

/-- A selector for the elements of a class. What may follow restricts them or leads away from them,
but does not continue the name. -/
def Selector.OfClass (name selector : String) : Prop :=
  ∃ tail, selector.toList = ("." ++ name).toList ++ tail ∧
    ∀ c, tail.head? = some c → c ∈ [':', ' ', '[']

theorem head_of_mem_nestedKeys : ∀ key ∈ nestedKeys, ∀ part ∈ Text.split ',' key.toList,
    part.tail.head? = some ':' ∨ part.tail.head? = some ' ' ∨ part.tail.head? = some '[' := by
  decide +kernel

theorem Selector.ofClass_below {name key : String} {parents : List String} (hk : key ∈ nestedKeys)
    (hp : ∀ parent ∈ parents, OfClass name parent) :
    ∀ selector ∈ below parents key, OfClass name selector := by
  intro selector hs
  obtain ⟨parent, hparent, tail, hpart, hselector⟩ :=
    exists_of_mem_below (fromParent_of_mem_nestedKeys key hk) hs
  obtain ⟨before, hbefore, hends⟩ := hp parent hparent
  refine ⟨before ++ Text.replace '&' parent.toList tail, ?_, ?_⟩
  · rw [hselector, hbefore, List.append_assoc]
  · cases before with
    | cons c rest => exact hends
    | nil =>
      have hhead := head_of_mem_nestedKeys key hk _ hpart
      cases tail with
      | nil => simp at hhead
      | cons c rest =>
        have hc : c ∈ [':', ' ', '['] := by simpa using hhead
        have hparent : c ≠ '&' := by
          rintro rfl
          exact absurd hc (by decide)
        simpa [Text.replace, hparent] using hc

namespace Styles

/-- Some block has a declaration that is not a statement such as an import. -/
def Declares (styles : Styles) : Prop :=
  ∃ path key text, isAtRule key = false ∧ styles.textAt? (path ++ [key]) = some text

theorem textAt?_of_mem_ruleList {styles : Styles} (hp : (Style.block styles).Proper) {rule : Rule}
    (hr : rule ∈ styles.ruleList) {key text : String} (he : (key, text) ∈ rule.entries) :
    styles.textAt? (rule.path ++ [key]) = some text :=
  (mem_declared_iff hp).1 (List.mem_flatMap.2 ⟨rule, hr, List.mem_map.2 ⟨(key, text), he, rfl⟩⟩)

theorem declares_iff {styles : Styles} (hp : (Style.block styles).Proper) :
    styles.Declares ↔ ∃ rule ∈ styles.ruleList, rule.declarations ≠ [] := by
  constructor
  · rintro ⟨path, key, text, hkey, htext⟩
    obtain ⟨rule, hr, hm⟩ := List.mem_flatMap.1 ((mem_declared_iff hp).2 htext)
    obtain ⟨⟨key', text'⟩, he, h⟩ := List.mem_map.1 hm
    have hkeys : rule.path = path ∧ key' = key := by simpa using (Prod.mk.inj h).1
    rw [← hkeys.2] at hkey
    exact ⟨rule, hr, List.ne_nil_of_mem (List.mem_filter.2 ⟨he, by simp [hkey]⟩)⟩
  · rintro ⟨rule, hr, hd⟩
    obtain ⟨⟨key, text⟩, he⟩ := List.exists_mem_of_ne_nil _ hd
    obtain ⟨hentry, hkey⟩ := List.mem_filter.1 he
    exact ⟨rule.path, key, text, by simpa using hkey, textAt?_of_mem_ruleList hp hr hentry⟩

theorem ruleList_eq_nil {styles : Styles} (hp : (Style.block styles).Proper)
    (h : ∀ path, styles.textAt? path = none) : styles.ruleList = [] := by
  refine List.eq_nil_iff_forall_not_mem.2 fun rule hr => ?_
  obtain ⟨hne, _⟩ := (mem_ruleList hp).1 hr
  obtain ⟨⟨key, text⟩, he⟩ := List.exists_mem_of_ne_nil _ hne
  have htext := textAt?_of_mem_ruleList hp hr he
  rw [h] at htext
  cases htext

end Styles

theorem Styles.Fit.text_eq_statements {styles : Styles} (h : Fit .rules styles) {rule : Rule}
    (hr : rule ∈ styles.ruleList) (hd : rule.declarations = []) (root : String) :
    rule.text root = String.join (rule.statements.map Rule.statementText) := by
  obtain ⟨hne, inner, hat, hentries⟩ := (mem_ruleList h.block.proper).1 hr
  obtain ⟨inside, hkind, hinner, _⟩ := h.block.at? hat
  obtain ⟨front, hfront, rfl | ⟨rfl, hpath⟩⟩ := KeyKind.path_of_at? hkind
  · have hconditions : Rule.conditionsAt rule.path = [] :=
      List.filter_eq_nil_iff.2 fun key hk => by simp [isAtRule_of_mem_nestedKeys (hfront key hk)]
    simp [Rule.text, hconditions, hd]
  · -- The condition stands around a declaration.
    obtain ⟨text, rfl⟩ := hinner.eq_background fun he => hne (by rw [hentries, he]; rfl)
    rw [Rule.declarations, hentries, List.filter_eq_nil_iff] at hd
    have hbackground : isAtRule "background" = false := by decide
    exact absurd hbackground (by simpa using hd _ (mem_texts.2 List.mem_cons_self))

/-- If nothing else is declared in a map, its text is made of statements without any selector. -/
theorem Styles.Fit.ruleText_eq_statements {styles : Styles} (h : Fit .rules styles)
    (hd : ¬ styles.Declares) {name : String} (hname : ',' ∉ name.toList) :
    styles.ruleText ("." ++ name) =
      String.join ((styles.ruleList.flatMap Rule.statements).map Rule.statementText) := by
  have hnone : ∀ rule ∈ styles.ruleList, rule.declarations = [] := fun rule hr =>
    not_not.1 fun hne => hd ((declares_iff h.block.proper).2 ⟨rule, hr, hne⟩)
  have hrules : styles.ruleList.map (Rule.text ("." ++ name)) =
      styles.ruleList.map fun rule => String.join (rule.statements.map Rule.statementText) :=
    List.map_congr_left fun rule hr => h.text_eq_statements hr (hnone rule hr) _
  rw [h.ruleText_eq hname, hrules, ← String.toList_inj]
  simp [String.toList_join, List.map_flatMap, List.flatMap_map, List.flatMap_assoc]

theorem Rule.braced_infix_text {root : String} {rule : Rule} (h : rule.declarations ≠ []) :
    (Rules.braced (",".intercalate (selectorsAt root rule.path))
      (String.join (rule.declarations.map declarationText))).toList <:+:
        (rule.text root).toList := by
  have hconditions (conditions : List String) (body : String) :
      body.toList <:+: (conditions.foldr Rules.braced body).toList := by
    induction conditions with
    | nil => exact List.infix_refl _
    | cons first rest ih =>
      refine ih.trans ⟨(first ++ "\x7b").toList, "\x7d".toList, ?_⟩
      simp [Rules.braced]
  rw [text, if_neg (by simpa using h)]
  refine List.IsInfix.trans ?_ (hconditions _ _)
  rw [String.toList_append]
  exact (List.suffix_append _ _).isInfix

theorem Rule.selectorsAt_ne_nil (root : String) (path : List String) :
    selectorsAt root path ≠ [] := by
  have hfold (keys parents : List String) (h : parents ≠ []) : keys.foldl below parents ≠ [] := by
    induction keys generalizing parents with
    | nil => exact h
    | cons key keys ih =>
      obtain ⟨parent, rest, rfl⟩ := List.exists_cons_of_ne_nil h
      exact ih _ (by simp [below, alternatives_ne_nil])
  exact hfold _ [root] (by simp)

namespace Stylesheet

/-- The text has a rule with declarations whose selectors are all for the class. -/
def HasRule (sheet : Stylesheet) (name : String) : Prop :=
  ∃ (selectors : List String) (declarations : List (String × String)),
    selectors ≠ [] ∧ (∀ selector ∈ selectors, OfClass name selector) ∧ declarations ≠ [] ∧
    (Rules.braced (",".intercalate selectors)
      (String.join (declarations.map Rule.declarationText))).toList <:+: sheet.css.toList

theorem hasRule_of_declares {sheet : Stylesheet} {styles : Styles} {name : String}
    (hfit : Fit .rules styles) (hname : ',' ∉ name.toList) (hd : styles.Declares)
    (hcss : (styles.ruleText ("." ++ name)).toList <:+: sheet.css.toList) :
    sheet.HasRule name := by
  have hproper : (Style.block styles).Proper := hfit.block.proper
  obtain ⟨rule, hr, hdeclares⟩ := (declares_iff hproper).1 hd
  obtain ⟨_, inner, hat, _⟩ := (mem_ruleList hproper).1 hr
  have hroot : OfClass name ("." ++ name) := ⟨[], by simp, by simp⟩
  have hselectors := hfit.forall_mem_selectorsAt hat hroot fun key hk parents hp =>
    ofClass_below hk hp
  have hinfix : (rule.text ("." ++ name)).toList <:+: (styles.ruleText ("." ++ name)).toList := by
    rw [hfit.ruleText_eq hname, String.toList_join, List.flatMap_map]
    exact List.infix_of_mem_flatten (List.mem_map_of_mem hr)
  exact ⟨_, _, Rule.selectorsAt_ne_nil _ _, hselectors, hdeclares,
    ((Rule.braced_infix_text hdeclares).trans hinfix).trans hcss⟩

theorem emitAll_eq_run (sheet : Stylesheet) (maps : List Styles) :
    StyleEngine.emitAll sheet maps = sheet.run (maps.map fun styles => .emit [styles]) := by
  rw [run, List.foldl_map]
  rfl

theorem requests_emits (maps : List Styles) :
    requests (maps.map fun styles => .emit [styles]) = maps.map fun styles => layered [styles] := by
  rw [requests, List.filterMap_map]
  exact congrFun List.filterMap_eq_map maps

theorem recent_emits (maps : List Styles) :
    recent (maps.map fun styles => .emit [styles]) = maps.map fun styles => layered [styles] := by
  induction maps using List.reverseRecOn with
  | nil => rfl
  | append_singleton maps last ih =>
    rw [List.map_append, List.map_append, ← ih]
    exact recent_concat _ _

theorem layered_singleton {styles : Styles} (h : styles.Distinct) : layered [styles] = styles := by
  have hnil : Table.Distinct ([] : Styles) := List.nodup_nil
  change Table.putAll [] styles = styles
  refine Table.Distinct.ext (hnil.putAll styles) ?_ fun key => ?_
  · rw [Table.keys_putAll hnil]
    exact eraseDups_of_nodup h
  · rw [Table.find?_putAll [] h]
    simp [Table.find?]

theorem toList_className (sheet : Stylesheet) (styles : Styles) : (sheet.className styles).toList =
    sheet.classPrefix.toList ++ Nat.toDigits 10 (classHash (flatten styles)).toNat := by
  simp [className, Nat.toString_eq_repr, Nat.repr_eq_ofList_toDigits]

theorem className_ne_empty (sheet : Stylesheet) (styles : Styles) :
    sheet.className styles ≠ "" := by
  intro hempty
  have hchars := toList_className sheet styles
  rw [hempty] at hchars
  exact Nat.toDigits_ne_nil (List.append_eq_nil_iff.1 hchars.symm).2

theorem comma_not_mem_className {sheet : Stylesheet} (h : ',' ∉ sheet.classPrefix.toList)
    (styles : Styles) : ',' ∉ (sheet.className styles).toList := by
  rw [toList_className, List.mem_append]
  rintro (hm | hm)
  · exact h hm
  · have hdigit := Nat.isDigit_of_mem_toDigits (by decide) (by decide) hm
    exact absurd hdigit (by decide)

section

variable {classPrefix : String} {requested : List Styles}

theorem classPrefix_emitAll (sheet : Stylesheet) (maps : List Styles) :
    (StyleEngine.emitAll sheet maps).classPrefix = sheet.classPrefix := by
  rw [emitAll_eq_run]
  exact classPrefix_run sheet _

theorem map_layered_singleton (hd : ∀ styles ∈ requested, styles.Distinct) :
    requested.map (fun styles => layered [styles]) = requested :=
  (List.map_congr_left fun styles hs => layered_singleton (hd styles hs)).trans (List.map_id _)

theorem registers_emitAll (hd : ∀ styles ∈ requested, styles.Distinct) :
    (StyleEngine.emitAll (empty classPrefix) requested).Registers requested := by
  have hregisters := registers_run classPrefix (requested.map fun styles => .emit [styles])
  rwa [requests_emits, map_layered_singleton hd, ← emitAll_eq_run] at hregisters

theorem collects_emitAll (hd : ∀ styles ∈ requested, styles.Distinct) :
    (StyleEngine.emitAll (empty classPrefix) requested).Collects requested := by
  have hcollects := collects_run classPrefix (requested.map fun styles => .emit [styles])
  rwa [recent_emits, map_layered_singleton hd, ← emitAll_eq_run] at hcollects

theorem exists_className_of_gives {name : String} (hd : ∀ styles ∈ requested, styles.Distinct)
    (h : StyleEngine.Gives (empty classPrefix) requested name) :
    ∃ styles ∈ requested,
      (StyleEngine.emitAll (empty classPrefix) requested).className styles = name := by
  obtain ⟨before, styles, after, hsplit, rfl⟩ := h
  have hstyles : styles ∈ requested := by
    rw [hsplit]
    simp
  have hstart : (StyleEngine.emitAll (empty classPrefix) requested).classPrefix =
      (StyleEngine.emitAll (empty classPrefix) before).classPrefix := by
    rw [classPrefix_emitAll, classPrefix_emitAll]
  refine ⟨styles, hstyles, ?_⟩
  rw [className_of_classPrefix hstart]
  exact congrArg _ (layered_singleton (hd styles hstyles)).symm

end

/-- A map with entries is asked for, whatever they are. Only the empty one goes without a class. -/
theorem className_request_iff (sheet : Stylesheet) (styles : Styles) :
    (Compile.className styles).run.run sheet = (.ok "", sheet) ↔ styles = [] := by
  constructor
  · intro h
    cases styles with
    | nil => rfl
    | cons e rest =>
      have hname : sheet.className (layered [e :: rest]) = "" := Except.ok.inj (Prod.mk.inj h).1
      exact absurd hname (className_ne_empty sheet _)
  · rintro rfl
    rfl

end Stylesheet

def LoadedTheme.classes (loaded : LoadedTheme) : List String :=
  loaded.components.flatMap CompiledComponent.classes

theorem Manager.load_gives_classes {σ : Type} [StyleEngine σ] {manager : Manager σ}
    {config : Value} {pool : List Value} {loaded : LoadedTheme}
    (h : (manager.load config pool).1 = .ok loaded) :
    ∃ maps : List Styles, (∀ styles ∈ maps, loaded.theme.Requests styles) ∧
      (manager.load config pool).2.engine = StyleEngine.emitAll manager.engine maps ∧
      ∀ name ∈ loaded.classes, name ≠ "" → StyleEngine.Gives manager.engine maps name := by
  unfold load at h ⊢
  rcases hrun : (LoadedTheme.ofConfig config pool).run.run manager.engine with ⟨result, after⟩
  rw [hrun] at h
  obtain rfl : result = .ok loaded := h
  rcases LoadedTheme.ofConfig_fails_or_compiles config pool manager.engine with
    ⟨error, hfails⟩ | ⟨_, theme, _, _, _, hcompiles⟩
  · rw [hrun] at hfails
    cases hfails
  · rw [hcompiles, run_bind] at hrun
    rcases hall : (theme.components.keys.mapM theme.compile).run.run manager.engine with
      ⟨result, last⟩
    rw [hall] at hrun
    cases result with
    | error error => cases hrun
    | ok components =>
      cases hrun
      have hissues : Issues theme.Requests []
          (fun components : List CompiledComponent => components.flatMap CompiledComponent.classes)
          (theme.components.keys.mapM theme.compile : Compile σ _) :=
        Issues.mapM fun name _ => theme.issues_compileFrom [] name
      obtain ⟨maps, hmaps, hengine, hnames⟩ := hissues manager.engine
      rw [hall] at hengine hnames
      refine ⟨maps, hmaps, hengine, fun name hn hne => ?_⟩
      rcases hnames components rfl name hn with hknown | hempty | hgiven
      · cases hknown
      · exact absurd hempty hne
      · exact hgiven

namespace Manager

/-- A class of a theme that is loaded first comes with the rules of the first map that was given it,
which the text holds. It is a selector there if something is declared in that map, and only then
these rules have declarations at all. A box has an empty class just if it has no entries, so one
with a block that holds nothing has a class. -/
theorem loaded_classes_have_rules {classPrefix : String} {config : Value} {pool : List Value}
    {loaded : LoadedTheme}
    (h : ((Manager.mk (Stylesheet.empty classPrefix) none).load config pool).1 = .ok loaded) :
    let sheet := ((Manager.mk (Stylesheet.empty classPrefix) none).load config pool).2.engine
    (∃ requested : List Styles, (∀ styles ∈ requested, loaded.theme.Requests styles) ∧
      sheet = (Stylesheet.empty classPrefix).run (requested.map fun styles => .emit [styles]) ∧
      ∀ name ∈ loaded.classes, name ≠ "" → ∃ first,
        requested.find? (fun styles => sheet.className styles == name) = some first ∧
        sheet.rules.find? name = some (first.ruleText ("." ++ name)) ∧
        (first.ruleText ("." ++ name)).toList <:+: sheet.css.toList ∧
        (',' ∉ classPrefix.toList →
          (first.Declares → sheet.HasRule name) ∧
          (¬ first.Declares → first.ruleText ("." ++ name) =
            String.join ((first.ruleList.flatMap Rule.statements).map Rule.statementText)) ∧
          ((∀ path, first.textAt? path = none) → first.ruleText ("." ++ name) = ""))) ∧
    ∀ (styles : Styles) (engine : Stylesheet),
      (Compile.className styles).run.run engine = (.ok "", engine) ↔ styles = [] := by
  intro sheet
  refine ⟨?_, fun styles engine => engine.className_request_iff styles⟩
  obtain ⟨requested, hrequested, hengine, hgiven⟩ := load_gives_classes h
  have hfit : ∀ styles ∈ requested, Fit .rules styles := by
    intro styles hs
    obtain ⟨_, context, source, hbox⟩ := hrequested styles hs
    exact Theme.fit_of_sourceStyles (Theme.fit_of_namedBoxStyles []) source hbox
  have hdistinct : ∀ styles ∈ requested, styles.Distinct := fun styles hs =>
    (fit_iff.1 (hfit styles hs)).1
  have hsheet : sheet = StyleEngine.emitAll (Stylesheet.empty classPrefix) requested := hengine
  have hregisters : sheet.Registers requested := hsheet ▸ Stylesheet.registers_emitAll hdistinct
  have hcollects : sheet.Collects requested := hsheet ▸ Stylesheet.collects_emitAll hdistinct
  refine ⟨requested, hrequested, by rw [hsheet, Stylesheet.emitAll_eq_run], fun name hn hne => ?_⟩
  obtain ⟨styles, hstyles, hclass⟩ :=
    Stylesheet.exists_className_of_gives hdistinct (hgiven name hn hne)
  rw [← hsheet] at hclass
  have hmem : name ∈ sheet.classes requested := Stylesheet.mem_classes.2 ⟨styles, hstyles, hclass⟩
  obtain ⟨first, hfirst, hrules⟩ := hregisters.first_of_mem_classes hcollects hmem
  have hfits : Fit .rules first := hfit first (List.mem_of_find?_eq_some hfirst)
  have hcss := hcollects.rules_infix hmem
  rw [Stylesheet.rulesOf_eq hrules] at hcss
  refine ⟨first, hfirst, hrules, hcss, fun hcomma => ?_⟩
  have hstart : sheet.classPrefix = classPrefix := by
    rw [hsheet, Stylesheet.classPrefix_emitAll]
    rfl
  have hplain : ',' ∉ name.toList := by
    rw [← hclass]
    exact Stylesheet.comma_not_mem_className (by rwa [hstart]) styles
  refine ⟨fun hd => Stylesheet.hasRule_of_declares hfits hplain hd hcss,
    fun hd => hfits.ruleText_eq_statements hd hplain, fun hnone => ?_⟩
  rw [hfits.ruleText_eq hplain, ruleList_eq_nil hfits.block.proper hnone]
  rfl

def hollow : Value :=
  .object [("default", .object [("theming", .object [("__hover", .object [])])])]

/-- The class of the box has been asked for, but its rules are empty and nothing in the text selects
it. -/
theorem hollow_class_without_rules :
    let loading := fresh.load (themeOf [("A", padded "1px"), ("B", hollow)]) []
    ∃ loaded, loading.1 = .ok loaded ∧ loaded.classes = ["go1062349187", "go3888720051"] ∧
      ".go1062349187\x7bpadding:1px;\x7d".toList <:+: loading.2.engine.css.toList ∧
      loading.2.engine.rules.find? "go3888720051" = some "" ∧
      ¬ ".go3888720051".toList <:+: loading.2.engine.css.toList := by
  intro loading
  have hclasses : loading.1.toOption.map LoadedTheme.classes =
      some ["go1062349187", "go3888720051"] := by decide +kernel
  have hregistered : loading.2.engine.rules.find? "go1062349187" =
      some ".go1062349187\x7bpadding:1px;\x7d" := by decide +kernel
  cases h : loading.1 with
  | error error =>
    rw [h] at hclasses
    cases hclasses
  | ok loaded =>
    have hloaded : loaded.classes = ["go1062349187", "go3888720051"] := by
      rw [h] at hclasses
      exact Option.some.inj hclasses
    obtain ⟨⟨requested, _, _, hrules⟩, _⟩ := loaded_classes_have_rules h
    obtain ⟨first, _, hfirst, hcss, _⟩ := hrules "go1062349187" (by simp [hloaded]) (by decide)
    have htext : first.ruleText ".go1062349187" = ".go1062349187\x7bpadding:1px;\x7d" :=
      Option.some.inj (hfirst.symm.trans hregistered)
    refine ⟨loaded, rfl, hloaded, ?_, by decide +kernel, ?_⟩
    · rw [← htext]
      exact hcss
    · rw [← Text.contains_iff]
      decide +kernel

end Manager

end Theming
