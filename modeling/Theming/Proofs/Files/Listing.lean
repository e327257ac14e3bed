import Mathlib.Data.List.Perm.Basic
import Theming.Pool
import Theming.Proofs.Css.Cascade
import Theming.Proofs.Success

/-! How directories list their entries. A directory that cannot be listed keeps all configuration
files from being found. Trees that differ only in the order of their entries hold the same ones,
which are sorted before they are read. -/

namespace Theming

namespace FileTree

/-- The names lead to a directory in the tree of which listing fails. -/
inductive Unlisted : FileTree → List String → FileFault → Prop where
  | here (entries : List (String × FileTree)) (fault : FileFault) :
      Unlisted (.directory entries (some fault)) [] fault
  | inside {entries : List (String × FileTree)} {stop : Option FileFault} {name : String}
      {tree : FileTree} {names : List String} {fault : FileFault} (entry : (name, tree) ∈ entries)
      (below : Unlisted tree names fault) :
      Unlisted (.directory entries stop) (name :: names) fault

mutual

/-- The second tree is the first one with the entries of its directories in another order. All
directories list their entries in full. -/
inductive Relisted : FileTree → FileTree → Prop where
  | file (content : Except FileFault ByteArray) : Relisted (.file content) (.file content)
  | directory {xs zs ys : List (String × FileTree)} (perm : xs.Perm zs)
      (entries : RelistedEntries zs ys) : Relisted (.directory xs none) (.directory ys none)

inductive RelistedEntries : List (String × FileTree) → List (String × FileTree) → Prop where
  | nil : RelistedEntries [] []
  | cons {name : String} {a b : FileTree} {xs ys : List (String × FileTree)}
      (first : Relisted a b) (rest : RelistedEntries xs ys) :
      RelistedEntries ((name, a) :: xs) ((name, b) :: ys)

end

mutual

def Proper : FileTree → Prop
  | .file _ => True
  | .directory entries _ => Table.Distinct entries ∧ ProperEntries entries
termination_by structural tree => tree

def ProperEntries : List (String × FileTree) → Prop
  | [] => True
  | (_, tree) :: rest => Proper tree ∧ ProperEntries rest
termination_by structural entries => entries

end

theorem properEntries_iff {entries : List (String × FileTree)} :
    ProperEntries entries ↔ ∀ e ∈ entries, e.2.Proper := by
  induction entries with
  | nil => simp [ProperEntries]
  | cons e rest ih => simp [ProperEntries, ih]

/-- What is found at a path is the same up to the order of entries. -/
inductive RelistedAt : Except FileFault FileTree → Except FileFault FileTree → Prop where
  | same (found : Except FileFault FileTree) : RelistedAt found found
  | found {a b : FileTree} (tree : Relisted a b) : RelistedAt (.ok a) (.ok b)

theorem RelistedEntries.find? {xs ys : List (String × FileTree)} (h : RelistedEntries xs ys)
    (name : String) : Table.find? xs name = none ∧ Table.find? ys name = none ∨
      ∃ a b, Table.find? xs name = some a ∧ Table.find? ys name = some b ∧ Relisted a b := by
  induction xs generalizing ys with
  | nil =>
    cases h
    exact .inl ⟨rfl, rfl⟩
  | cons e rest ih =>
    cases h with
    | @cons key a b _ ys first rest =>
      by_cases hk : key = name
      · exact .inr ⟨a, b, by simp [Table.find?, hk], by simp [Table.find?, hk], first⟩
      · simpa [Table.find?, hk] using ih rest

theorem relistedAt_walk {names : List String} {outer outer' : List FileTree} {a b : FileTree}
    (houter : List.Forall₂ (fun a b => a.Proper ∧ Relisted a b) outer outer') (proper : a.Proper)
    (tree : Relisted a b) : RelistedAt (walk outer a names) (walk outer' b names) := by
  induction names generalizing outer outer' a b with
  | nil => exact .found tree
  | cons name rest ih =>
    cases tree with
    | file content => exact .same _
    | @directory xs zs ys perm entries =>
      simp only [walk]
      split
      · exact ih houter proper (.directory perm entries)
      · split
        · cases houter with
          | nil => exact .same _
          | cons hparent houter => exact ih houter hparent.1 hparent.2
        · have hxs : Table.find? xs name = Table.find? zs name :=
            (Table.Distinct.find?_perm proper.1 perm.symm name).symm
          rcases entries.find? name with ⟨hx, hy⟩ | ⟨c, d, hx, hy, hcd⟩
          · rw [hxs, hx, hy]
            exact .same _
          · rw [hxs, hx, hy]
            have hc : c.Proper :=
              properEntries_iff.1 proper.2 _ (Table.mem_of_find? (hxs.trans hx))
            exact ih (.cons ⟨proper, .directory perm entries⟩ houter) hc hcd

end FileTree

namespace Files

/-- At every path the same is found, up to the order in which directories list their entries. -/
def Relisted (files files' : Files) : Prop :=
  ∀ path, FileTree.RelistedAt (files path) (files' path)

theorem relisted_of_tree {tree tree' : FileTree} (proper : tree.Proper)
    (h : tree.Relisted tree') : Relisted tree.files tree'.files := by
  intro path
  unfold FileTree.files
  split
  · exact .same _
  · exact .same _
  · exact FileTree.relistedAt_walk .nil proper h

theorem Relisted.readText {files files' : Files} (h : files.Relisted files') (path : String) :
    files.readText path = files'.readText path := by
  unfold Files.readText
  have hfound := h path
  generalize files path = found at hfound ⊢
  generalize files' path = found' at hfound ⊢
  cases hfound with
  | same found => rfl
  | found tree =>
    cases tree with
    | file content => rfl
    | directory perm entries => rfl

end Files

namespace Pool

open FileTree

def configFilesAt (entry : String × FileTree) :
    Except (List String × FileFault) (List (List String)) := do
  let below ← (configFiles entry.2).mapError fun (names, fault) => (entry.1 :: names, fault)
  return ownFile entry.1 entry.2 ++ below.map (entry.1 :: ·)

theorem configFilesOf_eq_mapM (entries : List (String × FileTree)) :
    configFilesOf entries = (entries.mapM configFilesAt).map List.flatten := by
  induction entries with
  | nil => rfl
  | cons e rest ih =>
    obtain ⟨name, tree⟩ := e
    rw [configFilesOf, ih, List.mapM_cons, configFilesAt]
    cases configFiles tree with
    | error error => rfl
    | ok below => cases rest.mapM configFilesAt <;> rfl

section

variable {entries : List (String × FileTree)} {stop : Option FileFault} {names : List String}
  {fault : FileFault}

theorem configFiles_directory_eq_error_iff {error : List String × FileFault} :
    configFiles (.directory entries stop) = .error error ↔ configFilesOf entries = .error error ∨
      ∃ found fault, configFilesOf entries = .ok found ∧ stop = some fault ∧
        error = ([], fault) := by
  rw [configFiles]
  cases configFilesOf entries with
  | error other => simp [bind, Except.bind]
  | ok found =>
    cases stop with
    | none => simp [bind, Except.bind, pure, Except.pure]
    | some fault => simp [bind, Except.bind, throw, throwThe, MonadExceptOf.throw, eq_comm]

theorem configFilesOf_cons_eq_error {name : String} {tree : FileTree}
    (h : configFilesOf ((name, tree) :: entries) = .error (names, fault)) :
    (∃ below, names = name :: below ∧ configFiles tree = .error (below, fault)) ∨
      configFilesOf entries = .error (names, fault) := by
  rw [configFilesOf] at h
  cases hc : configFiles tree with
  | error error =>
    rw [hc] at h
    cases h
    exact .inl ⟨error.1, rfl, rfl⟩
  | ok below =>
    rw [hc] at h
    cases hr : configFilesOf entries with
    | error error =>
      rw [hr] at h
      cases h
      exact .inr rfl
    | ok found =>
      rw [hr] at h
      cases h

mutual

theorem unlisted_of_configFiles : (tree : FileTree) → {names : List String} → {fault : FileFault} →
    configFiles tree = .error (names, fault) → tree.Unlisted names fault
  | .file _, _, _, h => by cases h
  | .directory entries stop, names, fault, h => by
    rcases configFiles_directory_eq_error_iff.1 h with hbelow | ⟨_, _, _, hstop, hhere⟩
    · obtain ⟨name, tree, below, hentry, hnames, hunlisted⟩ :=
        unlisted_of_configFilesOf entries hbelow
      rw [hnames]
      exact .inside hentry hunlisted
    · obtain ⟨hnames, hfault⟩ := Prod.mk.inj hhere
      rw [hstop, hnames, hfault]
      exact .here _ _

theorem unlisted_of_configFilesOf : (entries : List (String × FileTree)) → {names : List String} →
    {fault : FileFault} → configFilesOf entries = .error (names, fault) →
    ∃ name tree below, (name, tree) ∈ entries ∧ names = name :: below ∧ tree.Unlisted below fault
  | [], _, _, h => by cases h
  | (name, tree) :: rest, names, fault, h => by
    rcases configFilesOf_cons_eq_error h with ⟨below, rfl, hbelow⟩ | hrest
    · exact ⟨name, tree, below, List.mem_cons_self, rfl, unlisted_of_configFiles tree hbelow⟩
    · obtain ⟨other, found, below, hentry, hnames, hbelow⟩ := unlisted_of_configFilesOf rest hrest
      exact ⟨other, found, below, List.mem_cons_of_mem _ hentry, hnames, hbelow⟩

end

end

theorem isOk_configFiles_of_mem {entries : List (String × FileTree)}
    (h : (configFilesOf entries).isOk = true) : ∀ e ∈ entries, (configFiles e.2).isOk = true := by
  rw [configFilesOf_eq_mapM, isOk_map, isOk_mapM_iff] at h
  intro e he
  have hat := h e he
  unfold configFilesAt at hat
  cases hc : configFiles e.2 with
  | error error =>
    rw [hc] at hat
    cases hat
  | ok below => rfl

/-- Configuration files are found exactly if all directories can be listed. -/
theorem isOk_configFiles_iff {tree : FileTree} :
    (configFiles tree).isOk = true ↔ ∀ names fault, ¬ tree.Unlisted names fault := by
  constructor
  · intro h names fault hu
    induction hu with
    | here entries fault =>
      cases hc : configFilesOf entries <;> rw [configFiles, hc] at h <;> cases h
    | @inside entries stop name tree names fault hentry _ ih =>
      have hentries : (configFilesOf entries).isOk = true := by
        cases hc : configFilesOf entries with
        | error error =>
          rw [configFiles, hc] at h
          cases h
        | ok found => rfl
      exact ih (isOk_configFiles_of_mem hentries _ hentry)
  · intro h
    cases hc : configFiles tree with
    | error error => exact absurd (unlisted_of_configFiles tree hc) (h _ _)
    | ok found => rfl

theorem exists_unlisted_of_configPaths {directory : String} {tree : FileTree} {error : PoolError}
    (h : configPaths directory tree = .error error) : ∃ names fault,
      tree.Unlisted names fault ∧ error = .file (names.foldl Path.join directory) fault := by
  unfold configPaths at h
  split at h
  · cases h
  · next names fault hc =>
    cases h
    exact ⟨names, fault, unlisted_of_configFiles tree hc, rfl⟩

theorem listed_of_configPaths {directory : String} {tree : FileTree} {paths : List String}
    (h : configPaths directory tree = .ok paths) :
    ∀ names fault, ¬ tree.Unlisted names fault := by
  rw [← isOk_configFiles_iff]
  unfold configPaths at h
  split at h
  · next found hc => rw [hc]; rfl
  · cases h

mutual

theorem configFiles_perm {a b : FileTree} (h : Relisted a b) :
    ∃ xs ys, configFiles a = .ok xs ∧ configFiles b = .ok ys ∧ xs.Perm ys := by
  cases h with
  | file content => exact ⟨[], [], rfl, rfl, .refl _⟩
  | @directory xs zs ys perm entries =>
    obtain ⟨fs, gs, hzs, hys, hall⟩ := configFilesOf_perm entries
    obtain ⟨es, hxs, hes⟩ := List.perm_comp_forall₂ perm hzs
    have hx : configFilesOf xs = .ok es.flatten := by
      rw [configFilesOf_eq_mapM, mapM_eq_ok_iff.2 hxs]
      rfl
    have hy : configFilesOf ys = .ok gs.flatten := by
      rw [configFilesOf_eq_mapM, mapM_eq_ok_iff.2 hys]
      rfl
    exact ⟨es.flatten, gs.flatten, by rw [configFiles, hx]; rfl, by rw [configFiles, hy]; rfl,
      hes.flatten.trans (List.Perm.flatten_congr hall)⟩

theorem configFilesOf_perm {xs ys : List (String × FileTree)} (h : RelistedEntries xs ys) :
    ∃ fs gs, List.Forall₂ (fun e f => configFilesAt e = .ok f) xs fs ∧
      List.Forall₂ (fun e g => configFilesAt e = .ok g) ys gs ∧ List.Forall₂ List.Perm fs gs := by
  cases h with
  | nil => exact ⟨[], [], .nil, .nil, .nil⟩
  | @cons name a b xs ys first rest =>
    obtain ⟨below, below', ha, hb, hperm⟩ := configFiles_perm first
    obtain ⟨fs, gs, hfs, hgs, hall⟩ := configFilesOf_perm rest
    have hbelow : (below.map (name :: ·)).Perm (below'.map (name :: ·)) := hperm.map _
    cases first with
    | file content =>
      cases ha
      cases hb
      exact ⟨_ :: fs, _ :: gs, .cons rfl hfs, .cons rfl hgs, .cons (.refl _) hall⟩
    | directory perm entries =>
      refine ⟨below.map (name :: ·) :: fs, below'.map (name :: ·) :: gs, .cons ?_ hfs,
        .cons ?_ hgs, .cons hbelow hall⟩
      · rw [configFilesAt, ha]
        rfl
      · rw [configFilesAt, hb]
        rfl

end

/-- Sorting brings every order of the same paths into one. -/
theorem mergeSort_eq_of_perm {xs ys : List (List String)} (h : xs.Perm ys) :
    (xs.mergeSort fun a b => (compare a b).isLE) = ys.mergeSort fun a b => (compare a b).isLE := by
  have htrans (a b c : List String) (hab : (compare a b).isLE) (hbc : (compare b c).isLE) :
      (compare a c).isLE := Std.TransCmp.isLE_trans hab hbc
  have htotal (a b : List String) : ((compare a b).isLE || (compare b a).isLE) = true := by
    have hswap : compare a b = (compare b a).swap := Std.OrientedCmp.eq_swap
    rw [hswap]
    cases compare b a <;> rfl
  refine List.Perm.eq_of_pairwise (fun a b _ _ hab hba => ?_)
    (List.pairwise_mergeSort htrans htotal xs) (List.pairwise_mergeSort htrans htotal ys) ?_
  · exact Std.LawfulEqCmp.eq_of_compare (Std.OrientedCmp.isLE_antisymm hab hba)
  · exact (List.mergeSort_perm xs _).trans (h.trans (List.mergeSort_perm ys _).symm)

theorem configPaths_eq {a b : FileTree} (h : Relisted a b) (directory : String) :
    configPaths directory a = configPaths directory b := by
  obtain ⟨xs, ys, ha, hb, hperm⟩ := configFiles_perm h
  rw [configPaths, configPaths, ha, hb]
  dsimp only
  rw [mergeSort_eq_of_perm hperm]

variable {files files' : Files}

theorem readFile_of_relisted (h : files.Relisted files') (path : String) :
    readFile files path = readFile files' path := by
  unfold readFile
  rw [h.readText path]

theorem addFile_of_relisted (h : files.Relisted files') (path : String) :
    addFile files path = addFile files' path := by
  unfold addFile
  rw [readFile_of_relisted h path]

theorem addDirectory_of_relisted (h : files.Relisted files') (path : String) :
    addDirectory files path = addDirectory files' path := by
  have hfile : addFile files = addFile files' := funext (addFile_of_relisted h)
  unfold addDirectory
  have hfound := h path
  generalize files path = found at hfound ⊢
  generalize files' path = found' at hfound ⊢
  cases hfound with
  | same found => rw [hfile]
  | found tree =>
    cases tree with
    | file content => rfl
    | directory perm entries =>
      dsimp only
      rw [configPaths_eq (.directory perm entries), hfile]

end Pool

end Theming
