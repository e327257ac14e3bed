import Theming.Inheritance

/-! The chain of bases of a configuration. It is walked until a configuration is incomplete, has
the name of an earlier one, or is based on nothing that the pool holds. One of these always
happens, and the first of them decides what inheriting gives. -/

namespace Theming.Value

variable {pool : List Value} {trail : Trail} {config base last : Value} {earlier : List Value}

/-- The configuration does not have a key that every one needs. An empty name is none. -/
def Misses (config : Value) (key : String) : Prop :=
  key ∈ ["name", "components", "version", "globals", "sets"] ∧
    (config.field? key = none ∨ key = "name" ∧ config.field? key = some (.text ""))

/-- The second configuration is the first of the pool with the name that the first one is based
on. -/
def BasedOn (pool : List Value) (config base : Value) : Prop :=
  ∃ name before after, config.field? "basedOn" = some (.text name) ∧ name ≠ "" ∧
    pool = before ++ base :: after ∧ base.field? "name" = some (.text name) ∧
    ∀ other ∈ before, other.field? "name" ≠ some (.text name)

/-- From a configuration, past complete ones with names that the trail does not have, to the last
of a chain of bases. -/
inductive Walk (pool : List Value) : Trail → Value → List Value → Value → Prop where
  | stop (trail : Trail) (config : Value) : Walk pool trail config [] config
  | step {trail : Trail} {config base last : Value} {earlier : List Value}
      (complete : ∀ key, ¬ config.Misses key) (fresh : config.configName ∉ trail)
      (follows : BasedOn pool config base)
      (rest : Walk pool (trail ++ [config.configName]) base earlier last) :
      Walk pool trail config (config :: earlier) last

/-- Lays the configurations of a chain over the last of them, the nearest to it first. -/
def layerChain (earlier : List Value) (last : Value) : Value :=
  earlier.foldr (fun config merged => merged.mergeConfigs config) last

theorem hasRequired_eq_false_iff {key : String} : config.hasRequired key = false ↔
    config.field? key = none ∨ key = "name" ∧ config.field? key = some (.text "") := by
  unfold hasRequired
  cases config.field? key with
  | none => simp
  | some value => cases value <;> simp

theorem mem_missingKeys_iff {key : String} : key ∈ config.missingKeys ↔ config.Misses key := by
  rw [missingKeys, List.mem_filter, Bool.not_eq_true', hasRequired_eq_false_iff]
  exact Iff.rfl

theorem missingKeys_eq_nil_iff : config.missingKeys = [] ↔ ∀ key, ¬ config.Misses key := by
  rw [List.eq_nil_iff_forall_not_mem]
  simp only [mem_missingKeys_iff]

theorem configName_eq_iff {name : String} (h : name ≠ "") :
    config.configName = name ↔ config.field? "name" = some (.text name) := by
  unfold configName
  cases config.field? "name" with
  | none => simp [h.symm]
  | some value => cases value <;> simp [text?, h.symm]

theorem baseName?_eq_some_iff {name : String} :
    config.baseName? = some name ↔ config.field? "basedOn" = some (.text name) ∧ name ≠ "" := by
  unfold baseName?
  cases config.field? "basedOn" with
  | none => simp
  | some value => cases value <;> simp [text?, Option.filter_eq_some_iff]

theorem base?_eq_some_iff : config.base? pool = some base ↔ BasedOn pool config base := by
  unfold base?
  rw [Option.bind_eq_some_iff]
  constructor
  · rintro ⟨name, hname, hfind⟩
    obtain ⟨hbased, hne⟩ := baseName?_eq_some_iff.1 hname
    obtain ⟨hbase, before, after, hpool, hbefore⟩ := List.find?_eq_some_iff_append.1 hfind
    refine ⟨name, before, after, hbased, hne, hpool,
      (configName_eq_iff hne).1 (by simpa using hbase), fun other ho he => ?_⟩
    have hother := hbefore other ho
    simp [(configName_eq_iff hne).2 he] at hother
  · rintro ⟨name, before, after, hbased, hne, hpool, hbase, hbefore⟩
    refine ⟨name, baseName?_eq_some_iff.2 ⟨hbased, hne⟩, List.find?_eq_some_iff_append.2
      ⟨by simp [(configName_eq_iff hne).2 hbase], before, after, hpool, fun other ho => ?_⟩⟩
    have hother := mt (configName_eq_iff hne).1 (hbefore other ho)
    simpa using hother

theorem BasedOn.mem (h : BasedOn pool config base) : base ∈ pool := by
  obtain ⟨_, before, after, _, _, rfl, _⟩ := h
  simp

theorem base?_eq_none_iff : config.base? pool = none ↔ ∀ base, ¬ BasedOn pool config base := by
  rw [Option.eq_none_iff_forall_ne_some]
  simp only [ne_eq, base?_eq_some_iff]

theorem validate_of_complete (h : config.missingKeys = []) : config.validate = .ok () := by
  simp [validate, h]

theorem validate_of_incomplete (h : config.missingKeys ≠ []) :
    config.validate = .error (.incomplete
      (if config.configName = "" then "config" else config.configName) config.missingKeys) := by
  simp [validate, h]

theorem inheritFrom_of_incomplete (h : config.missingKeys ≠ []) :
    inheritFrom pool trail config = .error (.incomplete
      (if config.configName = "" then "config" else config.configName) config.missingKeys) := by
  rw [inheritFrom, validate_of_incomplete h]
  rfl

theorem inheritFrom_of_seen (h : config.missingKeys = []) (hn : config.configName ∈ trail) :
    inheritFrom pool trail config = .error (.cycle .bases (trail ++ [config.configName])) := by
  rw [inheritFrom, validate_of_complete h]
  simp only [hn, dite_true]
  rfl

theorem inheritFrom_of_no_base (h : config.missingKeys = []) (hn : config.configName ∉ trail)
    (hb : config.base? pool = none) : inheritFrom pool trail config = .ok config := by
  rw [inheritFrom, validate_of_complete h]
  simp only [hn, dite_false]
  split
  · rfl
  · next base found => rw [hb] at found; cases found

theorem inheritFrom_of_base (h : config.missingKeys = []) (hn : config.configName ∉ trail)
    (hb : config.base? pool = some base) : inheritFrom pool trail config =
      (inheritFrom pool (trail ++ [config.configName]) base).map (·.mergeConfigs config) := by
  rw [inheritFrom, validate_of_complete h]
  simp only [hn, dite_false]
  split
  · next found => rw [hb] at found; cases found
  · next found =>
    rw [hb] at found
    cases found
    rfl

/-- What a walk has passed is laid over whatever becomes of its last configuration. -/
theorem Walk.inheritFrom_eq (walk : Walk pool trail config earlier last) :
    inheritFrom pool trail config =
      (inheritFrom pool (trail ++ earlier.map configName) last).map (layerChain earlier) := by
  induction walk with
  | stop trail config =>
    simp only [List.map_nil, List.append_nil]
    cases inheritFrom pool trail config <;> rfl
  | step complete fresh follows rest ih =>
    rw [inheritFrom_of_base (missingKeys_eq_nil_iff.2 complete) fresh
      (base?_eq_some_iff.2 follows), ih]
    simp only [List.map_cons, List.append_assoc, List.singleton_append]
    cases inheritFrom pool _ _ <;> rfl

/-- Every step of a walk uses up a name of the pool, so a walk cannot go on forever. -/
theorem exists_walk_to_event (pool : List Value) (trail : Trail) (config : Value) :
    ∃ earlier last, Walk pool trail config earlier last ∧
      ((∃ key, last.Misses key) ∨ last.configName ∈ trail ++ earlier.map configName ∨
        ∀ base, ¬ BasedOn pool last base) := by
  by_cases missing : ∃ key, config.Misses key
  · exact ⟨[], config, .stop trail config, .inl missing⟩
  · have complete : ∀ key, ¬ config.Misses key := not_exists.1 missing
    by_cases fresh : config.configName ∈ trail
    · exact ⟨[], config, .stop trail config, .inr (.inl (by simpa using fresh))⟩
    · cases hb : config.base? pool with
      | none => exact ⟨[], config, .stop trail config, .inr (.inr (base?_eq_none_iff.1 hb))⟩
      | some base =>
        have shorter : Trail.ahead (pool.map configName) (trail ++ [config.configName])
            base.configName < Trail.ahead (pool.map configName) trail config.configName :=
          Trail.ahead_append_lt fresh (configName_base?_mem hb)
        obtain ⟨earlier, last, rest, event⟩ :=
          exists_walk_to_event pool (trail ++ [config.configName]) base
        refine ⟨config :: earlier, last, .step complete fresh (base?_eq_some_iff.1 hb) rest, ?_⟩
        simpa only [List.map_cons, List.append_assoc, List.singleton_append] using event
termination_by Trail.ahead (pool.map configName) trail config.configName

/-- Inheriting is decided by the first event on the chain of bases, and there always is one. -/
theorem inherit_decided_by_chain (config : Value) (pool : List Value) :
    (∀ earlier last, Walk pool [] config earlier last →
      ((∃ key, last.Misses key) → ∃ missing, config.inherit pool = .error (.incomplete
          (if last.configName = "" then "config" else last.configName) missing) ∧
        missing.Sublist ["name", "components", "version", "globals", "sets"] ∧
        ∀ key, key ∈ missing ↔ last.Misses key) ∧
      ((∀ key, ¬ last.Misses key) → last.configName ∈ earlier.map configName →
        config.inherit pool = .error (.cycle .bases ((earlier ++ [last]).map configName))) ∧
      ((∀ key, ¬ last.Misses key) → last.configName ∉ earlier.map configName →
        (∀ base, ¬ BasedOn pool last base) →
        config.inherit pool = .ok (layerChain earlier last))) ∧
    ∃ earlier last, Walk pool [] config earlier last ∧
      ((∃ key, last.Misses key) ∨ last.configName ∈ earlier.map configName ∨
        ∀ base, ¬ BasedOn pool last base) := by
  refine ⟨fun earlier last walk => ?_, ?_⟩
  · have h := walk.inheritFrom_eq
    rw [List.nil_append] at h
    change config.inherit pool = _ at h
    refine ⟨fun ⟨key, missing⟩ => ?_, fun complete seen => ?_, fun complete fresh hb => ?_⟩
    · have hmissing : last.missingKeys ≠ [] := List.ne_nil_of_mem (mem_missingKeys_iff.2 missing)
      refine ⟨last.missingKeys, ?_, List.filter_sublist, fun key => mem_missingKeys_iff⟩
      rw [h, inheritFrom_of_incomplete hmissing]
      rfl
    · rw [h, inheritFrom_of_seen (missingKeys_eq_nil_iff.2 complete) seen, List.map_append]
      rfl
    · rw [h, inheritFrom_of_no_base (missingKeys_eq_nil_iff.2 complete) fresh
        (base?_eq_none_iff.2 hb)]
      rfl
  · simpa only [List.nil_append] using exists_walk_to_event pool [] config

def fabric (name basedOn : String) (globals : List (String × Value)) : Value :=
  .object [("name", .text name), ("basedOn", .text basedOn), ("version", .text "1"),
    ("globals", .object globals), ("sets", .object []), ("components", .object [])]

def wool : Value := fabric "Wool" "" [("warmth", .flag true), ("weight", .text "heavy")]

def cloth : Value := fabric "Cloth" "Wool" [("weight", .text "light"), ("color", .text "grey")]

def coat : Value := fabric "Coat" "Cloth" [("color", .text "blue")]

def lining : Value := fabric "Lining" "Shell" []

def shell : Value := fabric "Shell" "Lining" []

theorem misses_fabric (name basedOn : String) (globals : List (String × Value)) (h : name ≠ "")
    (key : String) : ¬ (fabric name basedOn globals).Misses key := by
  rintro ⟨hkey, hmissing⟩
  simp only [List.mem_cons, List.not_mem_nil, or_false] at hkey
  rcases hkey with rfl | rfl | rfl | rfl | rfl <;>
    simp [fabric, field?, Table.find?, h] at hmissing

/-- The coat is laid over the first cloth of the pool, and that over the wool. The lining and the
shell are based on each other. -/
theorem coat_over_cloth_over_wool :
    let pool := [coat, cloth, fabric "Cloth" "Coat" [], wool]
    (Walk pool [] coat [coat, cloth] wool ∧
      coat.inherit pool = .ok ((wool.mergeConfigs cloth).mergeConfigs coat) ∧
      ((wool.mergeConfigs cloth).mergeConfigs coat).field? "globals" = some (.object
        [("warmth", .flag true), ("weight", .text "light"), ("color", .text "blue")])) ∧
    Walk [lining, shell] [] lining [lining, shell] lining ∧
      lining.inherit [lining, shell] = .error (.cycle .bases ["Lining", "Shell", "Lining"]) := by
  intro pool
  have hcloth : BasedOn pool coat cloth :=
    ⟨"Cloth", [coat], _, rfl, by decide, rfl, rfl, by simp [coat, fabric, field?, Table.find?]⟩
  have hwool : BasedOn pool cloth wool :=
    ⟨"Wool", [coat, cloth, fabric "Cloth" "Coat" []], _, rfl, by decide, rfl, rfl,
      by simp [coat, cloth, fabric, field?, Table.find?]⟩
  have hnone (base : Value) : ¬ BasedOn pool wool base := by
    rintro ⟨name, _, _, hbased, hne, _⟩
    cases hbased
    exact hne rfl
  have walk : Walk pool [] coat [coat, cloth] wool :=
    .step (misses_fabric _ _ _ (by decide)) (by decide) hcloth
      (.step (misses_fabric _ _ _ (by decide)) (by decide) hwool (.stop _ _))
  have hshell : BasedOn [lining, shell] lining shell :=
    ⟨"Shell", [lining], _, rfl, by decide, rfl, rfl, by simp [lining, fabric, field?, Table.find?]⟩
  have hlining : BasedOn [lining, shell] shell lining :=
    ⟨"Lining", [], _, rfl, by decide, rfl, rfl, List.forall_mem_nil _⟩
  have round : Walk [lining, shell] [] lining [lining, shell] lining :=
    .step (misses_fabric _ _ _ (by decide)) (by decide) hshell
      (.step (misses_fabric _ _ _ (by decide)) (by decide) hlining (.stop _ _))
  have hinherit := ((inherit_decided_by_chain coat pool).1 _ _ walk).2.2
    (misses_fabric _ _ _ (by decide)) (by decide) hnone
  have hcycle := ((inherit_decided_by_chain lining [lining, shell]).1 _ _ round).2.1
    (misses_fabric _ _ _ (by decide)) (by decide)
  exact ⟨⟨walk, hinherit, rfl⟩, round, hcycle⟩

end Theming.Value
