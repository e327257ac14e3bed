import Theming.Proofs.Files.Listing
import Theming.Proofs.Inheritance
import Theming.Proofs.Manager
import Theming.Proofs.Pool.History

/-! Orders that do not show. Inheriting looks up configurations by the names that they give
themselves, and a pool has one for each name, so its order has no influence. -/

namespace Theming

namespace Pool

/-- Everything in the pool stands under the name that it gives itself. -/
def Named (pool : Pool) : Prop := ∀ e ∈ pool, nameOf? e.2.config = some e.1

theorem named_putAll {pool additions : Pool} (h : pool.Named) (ha : additions.Named) :
    Named (Table.putAll pool additions) := by
  induction additions generalizing pool with
  | nil => exact h
  | cons e rest ih =>
    refine ih (fun f hf => ?_) fun f hf => ha f (List.mem_cons_of_mem e hf)
    rcases Table.mem_put hf with rfl | hf
    · exact ha _ List.mem_cons_self
    · exact h f hf

theorem named_direct (config : Value) : Named (direct config) := by
  intro e he
  obtain ⟨name, hname, rfl⟩ := Option.map_eq_some_iff.1 (Option.mem_toList.1 he)
  exact hname

theorem nameOf?_of_readFile {files : Files} {path name : String} {config : Value}
    (h : readFile files path = .ok (name, config)) : nameOf? config = some name := by
  unfold readFile at h
  split at h
  · obtain ⟨text, -, h⟩ := bind_eq_ok_iff.1 h
    obtain ⟨value, -, h⟩ := bind_eq_ok_iff.1 h
    split at h
    · next found hname =>
      cases h
      exact hname
    · cases h
  · cases h

theorem named_fromFiles (files : Files) (pool : Pool) (paths : List String) :
    Named (fromFiles files pool paths) := by
  induction paths generalizing pool with
  | nil => exact fun e he => by cases he
  | cons path rest ih =>
    rcases addFile_cases files path pool with ⟨error, h⟩ | ⟨name, config, hread, -, h⟩
    · rw [fromFiles_of_error h]
      exact fun e he => by cases he
    · rw [fromFiles_of_ok hread h]
      exact List.forall_mem_cons.2 ⟨nameOf?_of_readFile hread, ih _⟩

theorem named_history (pool : Pool) (steps : List Step) : Named (history pool steps) := by
  induction steps generalizing pool with
  | nil => exact fun e he => by cases he
  | cons step rest ih =>
    refine List.forall_mem_append.2 ⟨?_, ih _⟩
    cases step with
    | add config => exact named_direct config
    | addText format text =>
      simp only [Step.additions]
      cases format.read text with
      | error error => exact fun e he => by cases he
      | ok config => exact named_direct config
    | addFile files path => exact named_fromFiles files pool [path]
    | addDirectory files path => exact named_fromFiles files pool _

theorem named_run (steps : List Step) : Named (run [] steps) := by
  rw [run_eq_putAll]
  exact named_putAll (fun e he => by cases he) (named_history [] steps)

/-- Looking for a name among the configurations gives what the pool has under the name. -/
theorem Named.find?_configs {pool : Pool} (h : pool.Named) (name : String) :
    pool.configs.find? (fun config => config.configName == name) = pool.get? name := by
  induction pool with
  | nil => rfl
  | cons e rest ih =>
    obtain ⟨key, entry⟩ := e
    have hkey : entry.config.configName = key := by
      have hname : nameOf? entry.config = some key := h _ List.mem_cons_self
      unfold nameOf? at hname
      simp [Value.configName, hname]
    have hrest := ih fun f hf => h f (List.mem_cons_of_mem _ hf)
    by_cases hk : key = name
    · simp [configs, get?, Table.find?, hkey, hk]
    · simpa [configs, get?, Table.find?, hkey, hk] using hrest

theorem Named.base?_configs {pool : Pool} (h : pool.Named) (config : Value) :
    config.base? pool.configs = config.baseName?.bind pool.get? := by
  unfold Value.base?
  congr 1
  exact funext h.find?_configs

end Pool

namespace Value

theorem inheritFrom_congr {pool pool' : List Value}
    (h : ∀ config : Value, config.base? pool = config.base? pool') (trail : Trail)
    (config : Value) : inheritFrom pool trail config = inheritFrom pool' trail config := by
  by_cases complete : config.missingKeys = []
  · by_cases fresh : config.configName ∈ trail
    · rw [inheritFrom_of_seen complete fresh, inheritFrom_of_seen complete fresh]
    · cases hb : config.base? pool with
      | none =>
        rw [inheritFrom_of_no_base complete fresh hb,
          inheritFrom_of_no_base complete fresh ((h config).symm.trans hb)]
      | some base =>
        have shorter : Trail.ahead (pool.map configName) (trail ++ [config.configName])
            base.configName < Trail.ahead (pool.map configName) trail config.configName :=
          Trail.ahead_append_lt fresh (configName_base?_mem hb)
        rw [inheritFrom_of_base complete fresh hb,
          inheritFrom_of_base complete fresh ((h config).symm.trans hb),
          inheritFrom_congr h (trail ++ [config.configName]) base]
  · rw [inheritFrom_of_incomplete complete, inheritFrom_of_incomplete complete]
termination_by Trail.ahead (pool.map configName) trail config.configName

end Value

namespace Manager

variable {σ : Type} [StyleEngine σ]

theorem load_congr {pool pool' : List Value} {config : Value}
    (h : config.inherit pool = config.inherit pool') (manager : Manager σ) :
    manager.load config pool = manager.load config pool' := by
  unfold load LoadedTheme.ofConfig
  rw [h]

end Manager

namespace Pool

/-- Directories that list their entries in another order give the same pool, with the same
outcome. Pools that have the same configurations under their names, in whatever order, give the
same themes. -/
theorem order_does_not_show {σ : Type} [StyleEngine σ] :
    (∀ tree tree' : FileTree, tree.Proper → tree.Relisted tree' → ∀ path (pool : Pool),
      (addDirectory tree.files path).run.run pool =
        (addDirectory tree'.files path).run.run pool) ∧
    (∀ files files' : Files, files.Relisted files' → ∀ path (pool : Pool),
      (addDirectory files path).run.run pool = (addDirectory files' path).run.run pool) ∧
    ∀ steps steps' : List Step,
      (∀ name, (run [] steps).get? name = (run [] steps').get? name) →
      ∀ (manager : Manager σ) (config : Value),
        manager.load config (run [] steps).configs =
          manager.load config (run [] steps').configs := by
  refine ⟨fun tree tree' proper relisted path pool => ?_,
    fun files files' relisted path pool => ?_, fun steps steps' h manager config => ?_⟩
  · rw [addDirectory_of_relisted (Files.relisted_of_tree proper relisted) path]
  · rw [addDirectory_of_relisted relisted path]
  · have hget : (run [] steps).get? = (run [] steps').get? := funext h
    have hbase (other : Value) :
        other.base? (run [] steps).configs = other.base? (run [] steps').configs := by
      rw [(named_run steps).base?_configs, (named_run steps').base?_configs, hget]
    exact Manager.load_congr (Value.inheritFrom_congr hbase [] config) manager

def namedTheme (name parent : String) : Value :=
  .object [("name", .text name), ("basedOn", .text parent), ("version", .text "1"),
    ("globals", .object []), ("sets", .object []), ("components", .object [])]

def themeFile (name : String) : String × FileTree :=
  (name ++ ".yaml", .file (.ok ("name: " ++ name).toUTF8))

def themesIn (files : List (String × FileTree)) : FileTree :=
  .directory [("themes", .directory files none)] none

theorem swapped_order_does_not_show :
    let tree := themesIn [themeFile "A", themeFile "B"]
    let tree' := themesIn [themeFile "B", themeFile "A"]
    let pool := run [] [.add (namedTheme "A" ""), .add (namedTheme "B" "A")]
    let pool' := run [] [.add (namedTheme "B" "A"), .add (namedTheme "A" "")]
    (addDirectory tree.files "themes").run.run [] =
      (addDirectory tree'.files "themes").run.run [] ∧
    pool.configs.map Value.configName ≠ pool'.configs.map Value.configName ∧
    Manager.fresh.load (namedTheme "C" "B") pool.configs =
      Manager.fresh.load (namedTheme "C" "B") pool'.configs := by
  intro tree tree' pool pool'
  have proper : tree.Proper := by
    simp [tree, themesIn, themeFile, FileTree.Proper, FileTree.ProperEntries, Table.Distinct,
      Table.keys]
  have relisted : tree.Relisted tree' :=
    .directory (.refl _) (.cons (.directory (.swap _ _ _) (.cons (.file _) (.cons (.file _) .nil)))
      .nil)
  have hget (name : String) : pool.get? name = pool'.get? name := by
    change get? [("A", ⟨namedTheme "A" "", none⟩), ("B", ⟨namedTheme "B" "A", none⟩)] name =
      get? [("B", ⟨namedTheme "B" "A", none⟩), ("A", ⟨namedTheme "A" "", none⟩)] name
    by_cases ha : "A" = name
    · subst ha
      rfl
    · simp [get?, Table.find?, ha]
  obtain ⟨htrees, -, hpools⟩ := @order_does_not_show Stylesheet _
  exact ⟨htrees tree tree' proper relisted "themes" [], by decide +kernel,
    hpools _ _ hget Manager.fresh (namedTheme "C" "B")⟩

end Pool

end Theming
