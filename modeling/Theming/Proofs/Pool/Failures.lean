import Theming.Proofs.Files.Listing
import Theming.Proofs.Pool.History
import Theming.Proofs.Success

/-! What a pool holds after adding to it has failed. A file is refused as a whole, and so is a
directory that cannot be listed. Once it has been listed, it is added file by file, so the files in
front of the one that is refused stay. They fill names that come from no file, and every other entry
is what it was. -/

namespace Theming.Pool

variable {files : Files} {path : String} {paths done : List String} {pool after : Pool}
  {error : PoolError} {additions : List Addition}

/-- A file is read and put under the name that it gives itself. -/
def Comes (files : Files) (path : String) (addition : Addition) : Prop :=
  readFile files path = .ok (addition.1, addition.2.config) ∧ addition.2.origin = some path

def Refused (files : Files) (pool : Pool) (path : String) (error : PoolError) : Prop :=
  readFile files path = .error error ∨
    ∃ name config first, readFile files path = .ok (name, config) ∧
      pool.origin? name = some first ∧ error = .duplicate name first path

/-- The pool after some files have been added that are all that is new in it. -/
structure Holds (files : Files) (pool after : Pool) (done : List String)
    (additions : List Addition) : Prop where
  comes : List.Forall₂ (Comes files) done additions
  distinct : Table.Distinct additions
  free : ∀ addition ∈ additions, pool.origin? addition.1 = none
  names : after.keys = pool.keys ++ (Table.keys additions).filter (· ∉ pool.keys)
  entries : ∀ name, after.find? name = (Table.find? additions name).or (pool.find? name)

theorem refused_of_addFile (h : (addFile files path).run.run pool = (.error error, after)) :
    after = pool ∧ Refused files pool path error := by
  rw [addFile_eq] at h
  cases hread : readFile files path with
  | error cause =>
    rw [hread] at h
    cases h
    exact ⟨rfl, .inl hread⟩
  | ok found =>
    obtain ⟨name, config⟩ := found
    rw [hread] at h
    dsimp only at h
    cases horigin : pool.origin? name with
    | none =>
      rw [horigin] at h
      cases h
    | some first =>
      rw [horigin] at h
      cases h
      exact ⟨rfl, .inr ⟨name, config, first, hread, horigin, rfl⟩⟩

theorem comes_of_forM (h : (done.forM (addFile files)).run.run pool = (.ok (), after)) :
    List.Forall₂ (Comes files) done (fromFiles files pool done) := by
  induction done generalizing pool with
  | nil => exact .nil
  | cons path rest ih =>
    rw [forM_addFile_cons] at h
    rcases addFile_cases files path pool with ⟨error, hfile⟩ | ⟨name, config, hread, -, hfile⟩
    · rw [hfile] at h
      cases h
    · rw [hfile] at h
      rw [fromFiles_of_ok hread hfile]
      exact .cons ⟨hread, rfl⟩ (ih h)

theorem Admits.distinct (h : pool.Admits additions)
    (hfiles : ∀ addition ∈ additions, addition.2.origin.isSome) :
    Table.Distinct additions ∧ ∀ addition ∈ additions, pool.origin? addition.1 = none := by
  induction additions generalizing pool with
  | nil => exact ⟨List.nodup_nil, List.forall_mem_nil _⟩
  | cons first rest ih =>
    obtain ⟨name, entry⟩ := first
    obtain ⟨hentry, hrest⟩ := List.forall_mem_cons.1 hfiles
    obtain ⟨hdistinct, hfree⟩ := ih h.2 hrest
    have hother : ∀ addition ∈ rest, addition.1 ≠ name := by
      intro addition hm he
      have hnone := hfree addition hm
      rw [he, origin?, Table.find?_put_self] at hnone
      have horigin : entry.origin = none := hnone
      rw [horigin] at hentry
      cases hentry
    refine ⟨List.nodup_cons.2 ⟨fun hm => ?_, hdistinct⟩,
      List.forall_mem_cons.2 ⟨h.1 hentry, fun addition hm => ?_⟩⟩
    · obtain ⟨addition, hm, he⟩ := List.mem_map.1 hm
      exact hother addition hm he
    · have hnone := hfree addition hm
      rwa [origin?, Table.find?_put_ne _ _ (hother addition hm)] at hnone

theorem distinct_run (steps : List Step) : Table.Distinct (run [] steps) := by
  have hnil : Table.Distinct ([] : Pool) := List.nodup_nil
  rw [run_eq_putAll]
  exact hnil.putAll _

theorem holds_of_forM (distinct : Table.Distinct pool)
    (h : (done.forM (addFile files)).run.run pool = (.ok (), after)) :
    Holds files pool after done (fromFiles files pool done) := by
  have hcomes := comes_of_forM h
  have hfiles : ∀ addition ∈ fromFiles files pool done, addition.2.origin.isSome := by
    intro addition hm
    obtain ⟨path, -, hfile⟩ := exists_of_forall₂ hcomes addition hm
    rw [hfile.2]
    rfl
  have hafter : after = Table.putAll pool (fromFiles files pool done) := by
    rw [← forM_addFile_eq_putAll, h]
  obtain ⟨hdistinct, hfree⟩ := (admits_fromFiles files pool done).distinct hfiles
  refine ⟨hcomes, hdistinct, hfree, ?_, fun name => ?_⟩
  · rw [hafter, Table.keys_putAll_of_distinct distinct hdistinct]
  · rw [hafter, Table.find?_putAll pool hdistinct]

theorem Holds.done_eq_nil (h : Holds files pool pool done additions) : done = [] := by
  cases h.comes with
  | nil => rfl
  | @cons path addition _ rest hfirst _ =>
    have hfree := h.free addition List.mem_cons_self
    have hentry : pool.find? addition.1 = some addition.2 := by
      rw [h.entries]
      simp [Table.find?]
    rw [origin?, hentry, Option.bind_some, hfirst.2] at hfree
    cases hfree

/-- A file that is refused leaves the pool as it was. So does something that is no directory, or a
directory with one below it that cannot be listed. Any other directory fails with the first of its
files that is refused, and the pool holds the files in front of it and what it had under other
names. -/
theorem failed_addition_keeps_front (steps : List Step) (files : Files) (path : String) :
    (∀ error after, (addFile files path).run.run (run [] steps) = (.error error, after) →
      after = run [] steps ∧ Refused files after path error) ∧
    ∀ error after, (addDirectory files path).run.run (run [] steps) = (.error error, after) →
      (after = run [] steps ∧ error = .notDirectory path ∧ files.isDirectory path = false) ∨
      ∃ entries fault, files path = .ok (.directory entries fault) ∧
        ((after = run [] steps ∧ configPaths path (.directory entries fault) = .error error ∧
          ∃ names cause, FileTree.Unlisted (.directory entries fault) names cause ∧
            error = .file (names.foldl Path.join path) cause) ∨
        ∃ done next more additions,
          (∀ names cause, ¬ FileTree.Unlisted (.directory entries fault) names cause) ∧
          configPaths path (.directory entries fault) = .ok (done ++ next :: more) ∧
          Holds files (run [] steps) after done additions ∧ Refused files after next error ∧
          (after = run [] steps ↔ done = [])) := by
  refine ⟨fun error after h => ?_, fun error after h => ?_⟩
  · obtain ⟨rfl, hrefused⟩ := refused_of_addFile h
    exact ⟨rfl, hrefused⟩
  · cases hdir : files.isDirectory path with
    | false =>
      rw [addDirectory_of_other hdir] at h
      cases h
      exact .inl ⟨rfl, rfl, rfl⟩
    | true =>
      obtain ⟨entries, fault, found⟩ := isDirectory_iff.1 hdir
      refine .inr ⟨entries, fault, found, ?_⟩
      rw [addDirectory_eq found] at h
      cases hpaths : configPaths path (.directory entries fault) with
      | error cause =>
        rw [hpaths] at h
        cases h
        exact .inl ⟨rfl, rfl, exists_unlisted_of_configPaths hpaths⟩
      | ok paths =>
        rw [hpaths] at h
        dsimp only at h
        obtain ⟨done, rest, front, hturn⟩ := exists_inTurn files paths (run [] steps)
        rw [h] at hturn
        rcases hturn.outcome with ⟨-, hok⟩ | ⟨next, more, cause, rfl, hnext, hout⟩
        · cases hok
        · cases hout
          have hholds := holds_of_forM (distinct_run steps) hturn.added
          refine .inr ⟨done, next, more, _, listed_of_configPaths hpaths,
            congrArg Except.ok hturn.split, hholds, (refused_of_addFile hnext).2, fun he => ?_,
            fun he => ?_⟩
          · rw [he] at hholds
            exact hholds.done_eq_nil
          · rw [hturn.after_eq, he]
            rfl

theorem configPaths_of_sorted {directory : String} {tree : FileTree} {found : List (List String)}
    (hfound : configFiles tree = .ok found)
    (h : found.Pairwise fun a b => (compare a b).isLE) :
    configPaths directory tree = .ok (found.map fun names => names.foldl Path.join directory) := by
  rw [configPaths, hfound]
  dsimp only
  rw [List.mergeSort_of_pairwise h]

def namedFile (name : String) : FileTree := .file (.ok ("name: " ++ name).toUTF8)

def twinDirectory : List (String × FileTree) :=
  [("a.yaml", namedFile "A"), ("b.yaml", namedFile "B"), ("c.yaml", namedFile "A")]

def lockedDirectory : List (String × FileTree) :=
  [("a.yaml", namedFile "A"), ("inner", .directory [] (some .denied))]

def twinFiles : Files := .ofList [("themes", .ok (.directory twinDirectory none)),
  ("locked", .ok (.directory lockedDirectory none))]

theorem addDirectory_twinFiles (pool : Pool) : (addDirectory twinFiles "themes").run.run pool =
    (["themes/a.yaml", "themes/b.yaml", "themes/c.yaml"].forM
      (addFile twinFiles)).run.run pool := by
  have hfiles : configFiles (.directory twinDirectory none) =
      .ok [["a.yaml"], ["b.yaml"], ["c.yaml"]] := rfl
  have hpaths : configPaths "themes" (.directory twinDirectory none) =
      .ok ["themes/a.yaml", "themes/b.yaml", "themes/c.yaml"] := by
    rw [configPaths_of_sorted hfiles (by decide +kernel)]
    exact congrArg Except.ok (by decide +kernel)
  have hfound : twinFiles "themes" = .ok (.directory twinDirectory none) := rfl
  rw [addDirectory_eq hfound, hpaths]

def listing (pool : Pool) : List (String × Option String) := pool.map fun e => (e.1, e.2.origin)

theorem eq_error_of_not_ok (result : Except PoolError Unit × Pool) (h : result.1.isOk = false) :
    ∃ error, result = (.error error, result.2) := by
  obtain ⟨error, he⟩ := exists_error_of_isOk h
  exact ⟨error, Prod.ext he rfl⟩

/-- The third file has the name of the first one, which has taken the place of what was added
directly. No file is added from the directory that cannot be listed. -/
theorem twin_directory_keeps_front :
    let steps := [Step.add (.object [("name", .text "A"), ("version", .text "0")])]
    let later := steps ++ [.addFile twinFiles "themes/a.yaml"]
    (∃ error, (addFile twinFiles "themes/c.yaml").run.run (run [] later) =
      (.error error, run [] later)) ∧
    (addDirectory twinFiles "locked").run.run (run [] later) =
      (.error (.file "locked/inner" .denied), run [] later) ∧
    ∃ error after,
      (addDirectory twinFiles "themes").run.run (run [] steps) = (.error error, after) ∧
      listing after = [("A", some "themes/a.yaml"), ("B", some "themes/b.yaml")] ∧
      ∃ done next additions, Holds twinFiles (run [] steps) after done additions ∧
        Refused twinFiles after next error ∧ done ≠ [] := by
  intro steps later
  refine ⟨?_, ?_, ?_⟩
  · obtain ⟨error, h⟩ :=
      eq_error_of_not_ok ((addFile twinFiles "themes/c.yaml").run.run (run [] later))
        (by decide +kernel)
    obtain ⟨hafter, -⟩ :=
      (failed_addition_keeps_front later twinFiles "themes/c.yaml").1 error _ h
    rw [hafter] at h
    exact ⟨error, h⟩
  · have hjoin : ["inner"].foldl Path.join "locked" = "locked/inner" := by decide +kernel
    have hpaths : configPaths "locked" (.directory lockedDirectory none) =
        .error (.file "locked/inner" .denied) := by
      rw [← hjoin]
      rfl
    have hfound : twinFiles "locked" = .ok (.directory lockedDirectory none) := rfl
    rw [addDirectory_eq hfound, hpaths]
  · obtain ⟨error, h⟩ :=
      eq_error_of_not_ok ((addDirectory twinFiles "themes").run.run (run [] steps))
        (by rw [addDirectory_twinFiles]; decide +kernel)
    have hlisting : listing ((addDirectory twinFiles "themes").run.run (run [] steps)).2 =
        [("A", some "themes/a.yaml"), ("B", some "themes/b.yaml")] := by
      rw [addDirectory_twinFiles]
      decide +kernel
    have hbefore : listing (run [] steps) = [("A", none)] := by decide +kernel
    refine ⟨error, _, h, hlisting, ?_⟩
    rcases (failed_addition_keeps_front steps twinFiles "themes").2 error _ h with
      ⟨hafter, -⟩ | ⟨_, _, -, ⟨hafter, -⟩ |
        ⟨done, next, _, additions, -, -, hholds, hrefused, hsame⟩⟩
    · rw [hafter, hbefore] at hlisting
      cases hlisting
    · rw [hafter, hbefore] at hlisting
      cases hlisting
    · refine ⟨done, next, additions, hholds, hrefused, fun hnil => ?_⟩
      rw [hsame.2 hnil, hbefore] at hlisting
      cases hlisting

/-- Adding a directory that fails does not leave every pool as it was. -/
theorem failed_directory_leaves_front :
    ¬ ∀ steps files path error after,
      (addDirectory files path).run.run (run [] steps) = (.error error, after) →
        after = run [] steps := by
  intro hclaim
  obtain ⟨error, h⟩ :=
    eq_error_of_not_ok ((addDirectory twinFiles "themes").run.run [])
      (by rw [addDirectory_twinFiles]; decide +kernel)
  have hafter : ((addDirectory twinFiles "themes").run.run []).2 = [] :=
    hclaim [] twinFiles "themes" error _ h
  have hkeys : Table.keys ((addDirectory twinFiles "themes").run.run []).2 = ["A", "B"] := by
    rw [addDirectory_twinFiles]
    decide +kernel
  rw [hafter] at hkeys
  cases hkeys

end Theming.Pool
