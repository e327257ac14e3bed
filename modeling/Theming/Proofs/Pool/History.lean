import Mathlib.Data.List.Induction
import Theming.Pool
import Theming.Proofs.Compile.Layering
import Theming.Proofs.Success

/-! What a pool has been through. After any run it is the table of the additions that succeeded, so
under each name it holds the last of them. A file is refused exactly if the last addition of its
name came from a file. Two files of one name can therefore only be added if the name has been added
directly in between. -/

namespace Theming.Table

variable {α : Type}

theorem find?_append (xs ys : Table α) (key : String) :
    find? (xs ++ ys) key = (find? xs key).or (find? ys key) := by
  induction xs with
  | nil => simp [find?]
  | cons e rest ih => by_cases h : e.1 = key <;> simp [find?, h, ih]

/-- The last entry of a key counts. -/
theorem find?_putAll_reverse (table entries : Table α) (key : String) :
    (table.putAll entries).find? key = (find? entries.reverse key).or (table.find? key) := by
  induction entries using List.reverseRecOn with
  | nil => simp [putAll, find?]
  | append_singleton entries e ih =>
    obtain ⟨k, a⟩ := e
    rw [putAll_concat, List.reverse_append]
    by_cases h : k = key
    · subst h
      simp [find?_put_self, find?]
    · simp [find?_put_ne _ _ (Ne.symm h), ih, find?, h]

theorem putAll_append (table xs ys : Table α) :
    table.putAll (xs ++ ys) = (table.putAll xs).putAll ys := by
  simp [putAll, List.foldl_append]

end Theming.Table

namespace Theming.Pool

/-- Something that is done to a pool. The files are those that are there at that time. -/
inductive Step where
  | add (config : Value)
  | addText (format : Format) (text : String)
  | addFile (files : Files) (path : String)
  | addDirectory (files : Files) (path : String)

def Step.run (pool : Pool) : Step → Pool
  | .add config => pool.add config
  | .addText format text => (pool.addText format text).toOption.getD pool
  | .addFile files path => ((Pool.addFile files path).run.run pool).2
  | .addDirectory files path => ((Pool.addDirectory files path).run.run pool).2

def run (pool : Pool) (steps : List Step) : Pool := steps.foldl Step.run pool

abbrev Addition := String × PoolEntry

def direct (config : Value) : List Addition :=
  ((nameOf? config).map fun name => (name, ⟨config, none⟩)).toList

/-- What adding files one after the other puts into a pool, up to the first file that fails. -/
def fromFiles (files : Files) (pool : Pool) : List String → List Addition
  | [] => []
  | path :: rest =>
    match (addFile files path).run.run pool, readFile files path with
    | (.ok _, pool), .ok (name, config) => (name, ⟨config, some path⟩) :: fromFiles files pool rest
    | _, _ => []

def directoryPaths (files : Files) (path : String) : List String :=
  match files path with
  | .ok (.directory entries fault) =>
    (configPaths path (.directory entries fault)).toOption.getD []
  | _ => []

def Step.additions (pool : Pool) : Step → List Addition
  | .add config => direct config
  | .addText format text => (format.read text).toOption.elim [] direct
  | .addFile files path => fromFiles files pool [path]
  | .addDirectory files path => fromFiles files pool (directoryPaths files path)

/-- All additions of a run that succeeded, in order. -/
def history (pool : Pool) : List Step → List Addition
  | [] => []
  | step :: rest => step.additions pool ++ history (step.run pool) rest

def last? (additions : List Addition) (name : String) : Option PoolEntry :=
  Table.find? additions.reverse name

theorem addFile_eq (files : Files) (path : String) (pool : Pool) :
    (addFile files path).run.run pool = match readFile files path with
      | .error error => (.error error, pool)
      | .ok (name, config) => match pool.origin? name with
        | some first => (.error (.duplicate name first path), pool)
        | none => (.ok (), pool.put name ⟨config, path⟩) := by
  unfold addFile
  cases readFile files path with
  | error error => rfl
  | ok found =>
    obtain ⟨name, config⟩ := found
    change (match pool.origin? name with
      | some first => (throw (PoolError.duplicate name first path) : Gather Unit)
      | none => modify fun pool : Pool => pool.put name ⟨config, path⟩).run.run pool = _
    dsimp only
    cases pool.origin? name <;> rfl

theorem isDirectory_iff {files : Files} {path : String} : files.isDirectory path = true ↔
    ∃ entries fault, files path = .ok (.directory entries fault) := by
  unfold Files.isDirectory
  split
  · next entries fault found => exact ⟨fun _ => ⟨entries, fault, found⟩, fun _ => rfl⟩
  · next other => exact ⟨fun h => (Bool.false_ne_true h).elim,
      fun ⟨entries, fault, found⟩ => (other entries fault found).elim⟩

theorem addDirectory_of_other {files : Files} {path : String}
    (h : files.isDirectory path = false) (pool : Pool) :
    (addDirectory files path).run.run pool = (.error (.notDirectory path), pool) := by
  unfold addDirectory
  split
  · next entries fault found =>
    rw [isDirectory_iff.2 ⟨entries, fault, found⟩] at h
    cases h
  · rfl

theorem directoryPaths_of_other {files : Files} {path : String}
    (h : files.isDirectory path = false) : directoryPaths files path = [] := by
  unfold directoryPaths
  split
  · next entries fault found =>
    rw [isDirectory_iff.2 ⟨entries, fault, found⟩] at h
    cases h
  · rfl

theorem addDirectory_eq {files : Files} {path : String} {entries : List (String × FileTree)}
    {fault : Option FileFault} (h : files path = .ok (.directory entries fault)) (pool : Pool) :
    (addDirectory files path).run.run pool =
      match configPaths path (.directory entries fault) with
      | .error error => (.error error, pool)
      | .ok paths => (paths.forM (addFile files)).run.run pool := by
  unfold addDirectory
  rw [h]
  dsimp only
  cases configPaths path (.directory entries fault) <;> rfl

/-- A file is refused and the pool stays as it is, or it is added under a name for which the pool
has no file. -/
theorem addFile_cases (files : Files) (path : String) (pool : Pool) :
    (∃ error, (addFile files path).run.run pool = (.error error, pool)) ∨
    ∃ name config, readFile files path = .ok (name, config) ∧ pool.origin? name = none ∧
      (addFile files path).run.run pool = (.ok (), pool.put name ⟨config, path⟩) := by
  have h := addFile_eq files path pool
  cases hread : readFile files path with
  | error error =>
    rw [hread] at h
    exact .inl ⟨error, h⟩
  | ok found =>
    obtain ⟨name, config⟩ := found
    rw [hread] at h
    dsimp only at h
    cases horigin : pool.origin? name with
    | some first =>
      rw [horigin] at h
      exact .inl ⟨_, h⟩
    | none =>
      rw [horigin] at h
      exact .inr ⟨name, config, rfl, horigin, h⟩

theorem forM_addFile_cons (files : Files) (path : String) (rest : List String) (pool : Pool) :
    ((path :: rest).forM (addFile files)).run.run pool =
      match (addFile files path).run.run pool with
      | (.ok _, pool) => (rest.forM (addFile files)).run.run pool
      | (.error error, pool) => (.error error, pool) := by
  change ((addFile files path).run.run pool |> fun pair =>
    ExceptT.bindCont (fun _ => rest.forM (addFile files)) pair.1 pair.2) = _
  rcases (addFile files path).run.run pool with ⟨result, pool⟩
  cases result <;> rfl

/-- Files are added one after the other. The first one that is refused decides on the outcome, and
those in front of it stay. -/
structure InTurn (files : Files) (pool : Pool) (paths : List String)
    (outcome : Except PoolError Unit × Pool) (done rest : List String) (after : Pool) : Prop where
  split : paths = done ++ rest
  after_eq : after = run pool (done.map (.addFile files))
  added : (done.forM (addFile files)).run.run pool = (.ok (), after)
  outcome : rest = [] ∧ outcome = (.ok (), after) ∨
    ∃ next more error, rest = next :: more ∧
      (addFile files next).run.run after = (.error error, after) ∧ outcome = (.error error, after)

theorem exists_inTurn (files : Files) (paths : List String) (pool : Pool) :
    ∃ done rest after,
      InTurn files pool paths ((paths.forM (addFile files)).run.run pool) done rest after := by
  induction paths generalizing pool with
  | nil => exact ⟨[], [], pool, rfl, rfl, rfl, .inl ⟨rfl, rfl⟩⟩
  | cons path paths ih =>
    rw [forM_addFile_cons]
    rcases addFile_cases files path pool with ⟨error, h⟩ | ⟨name, config, -, -, h⟩
    · rw [h]
      exact ⟨[], path :: paths, pool, rfl, rfl, rfl, .inr ⟨path, paths, error, rfl, h, rfl⟩⟩
    · rw [h]
      obtain ⟨done, rest, after, rfl, rfl, hadded, houtcome⟩ := ih (pool.put name ⟨config, path⟩)
      refine ⟨path :: done, rest, _, rfl, ?_, ?_, houtcome⟩
      · simp [run, Step.run, h]
      · rw [forM_addFile_cons, h]
        exact hadded

theorem fromFiles_of_error {files : Files} {path : String} {pool after : Pool} {error : PoolError}
    (h : (addFile files path).run.run pool = (.error error, after)) (rest : List String) :
    fromFiles files pool (path :: rest) = [] := by
  rw [fromFiles, h]

theorem fromFiles_of_ok {files : Files} {path name : String} {pool : Pool} {config : Value}
    (hread : readFile files path = .ok (name, config))
    (h : (addFile files path).run.run pool = (.ok (), pool.put name ⟨config, path⟩))
    (rest : List String) : fromFiles files pool (path :: rest) =
      (name, ⟨config, some path⟩) :: fromFiles files (pool.put name ⟨config, path⟩) rest := by
  rw [fromFiles, h, hread]

/-- Every addition from a file is made where the pool has no file under its name. -/
def Admits (pool : Pool) : List Addition → Prop
  | [] => True
  | (name, entry) :: rest =>
    (entry.origin.isSome → pool.origin? name = none) ∧ Admits (pool.put name entry) rest

theorem Admits.append {pool : Pool} {xs ys : List Addition} (hx : pool.Admits xs)
    (hy : Admits (Table.putAll pool xs) ys) : pool.Admits (xs ++ ys) := by
  induction xs generalizing pool with
  | nil => exact hy
  | cons e rest ih => exact ⟨hx.1, ih hx.2 hy⟩

theorem Admits.at {pool : Pool} {front back : List Addition} {e : Addition}
    (h : pool.Admits (front ++ e :: back)) (hf : e.2.origin.isSome) :
    origin? (Table.putAll pool front) e.1 = none := by
  induction front generalizing pool with
  | nil => exact h.1 hf
  | cons first rest ih => exact ih h.2

theorem admits_direct (pool : Pool) (config : Value) : pool.Admits (direct config) := by
  unfold direct
  cases nameOf? config with
  | none => trivial
  | some name => exact And.intro (fun h => by cases h) trivial

theorem add_eq_putAll (pool : Pool) (config : Value) :
    pool.add config = Table.putAll pool (direct config) := by
  unfold add direct
  cases nameOf? config <;> rfl

theorem admits_fromFiles (files : Files) (pool : Pool) (paths : List String) :
    pool.Admits (fromFiles files pool paths) := by
  induction paths generalizing pool with
  | nil => trivial
  | cons path rest ih =>
    rcases addFile_cases files path pool with ⟨error, h⟩ | ⟨name, config, hread, hfree, h⟩
    · rw [fromFiles_of_error h]
      trivial
    · rw [fromFiles_of_ok hread h]
      exact ⟨fun _ => hfree, ih _⟩

theorem forM_addFile_eq_putAll (files : Files) (paths : List String) (pool : Pool) :
    ((paths.forM (addFile files)).run.run pool).2 =
      Table.putAll pool (fromFiles files pool paths) := by
  induction paths generalizing pool with
  | nil => rfl
  | cons path rest ih =>
    rw [forM_addFile_cons]
    rcases addFile_cases files path pool with ⟨error, h⟩ | ⟨name, config, hread, -, h⟩
    · rw [fromFiles_of_error h, h]
      rfl
    · rw [fromFiles_of_ok hread h, h]
      exact ih _

theorem Step.run_eq_putAll (step : Step) (pool : Pool) :
    step.run pool = Table.putAll pool (step.additions pool) := by
  cases step with
  | add config => exact add_eq_putAll pool config
  | addText format text =>
    simp only [Step.run, Step.additions, Pool.addText]
    cases format.read text with
    | error error => rfl
    | ok config => exact add_eq_putAll pool config
  | addFile files path =>
    have h := forM_addFile_eq_putAll files [path] pool
    rw [forM_addFile_cons] at h
    rcases hrun : (Pool.addFile files path).run.run pool with ⟨result, after⟩
    rw [hrun] at h
    simp only [Step.run, Step.additions]
    rw [hrun, ← h]
    cases result <;> rfl
  | addDirectory files path =>
    cases hdir : files.isDirectory path with
    | false =>
      simp only [Step.run, Step.additions, addDirectory_of_other hdir,
        directoryPaths_of_other hdir]
      rfl
    | true =>
      obtain ⟨entries, fault, hfound⟩ := isDirectory_iff.1 hdir
      simp only [Step.run, Step.additions, directoryPaths, addDirectory_eq hfound, hfound]
      cases configPaths path (.directory entries fault) with
      | error error => rfl
      | ok paths => exact forM_addFile_eq_putAll files paths pool

theorem Step.admits_additions (step : Step) (pool : Pool) :
    pool.Admits (step.additions pool) := by
  cases step with
  | add config => exact admits_direct pool config
  | addText format text =>
    simp only [Step.additions]
    cases format.read text with
    | error error => trivial
    | ok config => exact admits_direct pool config
  | addFile files path => exact admits_fromFiles files pool [path]
  | addDirectory files path => exact admits_fromFiles files pool _

theorem run_eq_putAll (pool : Pool) (steps : List Step) :
    run pool steps = Table.putAll pool (history pool steps) := by
  induction steps generalizing pool with
  | nil => rfl
  | cons step rest ih =>
    rw [history, Table.putAll_append, ← step.run_eq_putAll]
    exact ih _

theorem admits_history (pool : Pool) (steps : List Step) : pool.Admits (history pool steps) := by
  induction steps generalizing pool with
  | nil => trivial
  | cons step rest ih =>
    refine (step.admits_additions pool).append ?_
    rw [← step.run_eq_putAll]
    exact ih _

theorem find?_run (steps : List Step) (name : String) :
    Table.find? (run [] steps) name = last? (history [] steps) name := by
  rw [run_eq_putAll, Table.find?_putAll_reverse, last?]
  simp [Table.find?]

theorem direct_between_files {additions before between after : List Addition} {name : String}
    {first second : PoolEntry} (h : Admits [] additions)
    (hsplit : additions = before ++ (name, first) :: between ++ (name, second) :: after)
    (hfirst : first.origin.isSome) (hsecond : second.origin.isSome) :
    ∃ entry, (name, entry) ∈ between ∧ entry.origin = none := by
  rw [hsplit] at h
  have hfree : origin? (Table.putAll [] (before ++ (name, first) :: between)) name = none :=
    h.at hsecond
  have hlast : ∃ entry, Table.find? ((name, first) :: between).reverse name = some entry := by
    refine Option.ne_none_iff_exists'.1 fun hnone => Table.find?_eq_none_iff.1 hnone ?_
    simp [Table.keys]
  obtain ⟨entry, hentry⟩ := hlast
  have horigin : entry.origin = none := by
    rw [origin?, Table.find?_putAll_reverse, List.reverse_append, Table.find?_append,
      hentry] at hfree
    exact hfree
  have hmem : (name, entry) ∈ (name, first) :: between :=
    List.mem_reverse.1 (Table.mem_of_find? hentry)
  rcases List.mem_cons.1 hmem with he | hmem
  · cases he
    rw [horigin] at hfirst
    cases hfirst
  · exact ⟨entry, hmem, horigin⟩

/-- A pool holds the last addition of every name. A file is refused exactly if the last addition of
its name came from a file, so between two files of one name it has been added directly. Directories
add their files in turn, unless their files cannot be listed. -/
theorem file_refused_iff_last_from_file (steps : List Step) :
    let pool := run [] steps
    let additions := history [] steps
    (∀ name, pool.get? name = (last? additions name).map PoolEntry.config) ∧
    (∀ files path name config, readFile files path = .ok (name, config) →
      (addFile files path).run.run pool = match (last? additions name).bind PoolEntry.origin with
        | some first => (.error (.duplicate name first path), pool)
        | none => (.ok (), pool.put name ⟨config, path⟩)) ∧
    (∀ before between after name first second,
      additions = before ++ (name, first) :: between ++ (name, second) :: after →
      first.origin.isSome → second.origin.isSome →
      ∃ entry, (name, entry) ∈ between ∧ entry.origin = none) ∧
    (∀ config name, nameOf? config = some name → ∀ other,
      (pool.add config).get? other = if other = name then some config else pool.get? other) ∧
    ∀ files path entries fault, files path = .ok (.directory entries fault) →
      (∀ error, configPaths path (.directory entries fault) = .error error →
        (addDirectory files path).run.run pool = (.error error, pool)) ∧
      ∀ paths, configPaths path (.directory entries fault) = .ok paths → ∃ done rest after,
        InTurn files pool paths ((addDirectory files path).run.run pool) done rest after := by
  intro pool additions
  refine ⟨fun name => ?_, fun files path name config hread => ?_,
    fun before between after name first second hsplit => ?_, fun config name hname other => ?_,
    fun files path entries fault hdir => ?_⟩
  · rw [get?, find?_run]
  · have horigin : pool.origin? name = (last? additions name).bind PoolEntry.origin := by
      rw [origin?, find?_run]
    rw [addFile_eq, hread, ← horigin]
  · exact direct_between_files (admits_history [] steps) hsplit
  · have hadd : pool.add config = pool.put name ⟨config, none⟩ := by rw [add, hname]
    rw [hadd, get?]
    by_cases h : other = name
    · subst h
      simp [Table.find?_put_self]
    · simp [Table.find?_put_ne _ _ h, h, get?]
  · have hrun := addDirectory_eq hdir pool
    refine ⟨fun error hpaths => ?_, fun paths hpaths => ?_⟩
    · rw [hrun, hpaths]
    · rw [hpaths] at hrun
      rw [hrun]
      exact exists_inTurn files paths pool

def twin (version : String) : Except FileFault FileTree :=
  .ok (.file (.ok ("name: N\nversion: " ++ version).toUTF8))

def twins : Files := .ofList [("a.yaml", twin "1"), ("b.yaml", twin "2")]

/-- The second of two files of one name is refused, unless the name is added directly before. -/
theorem twin_added_after_direct :
    let refused := [Step.addFile twins "a.yaml"]
    let added := refused ++ [.add (.object [("name", .text "N")])]
    (addFile twins "b.yaml").run.run (run [] refused) =
      (.error (.duplicate "N" "a.yaml" "b.yaml"), run [] refused) ∧
    ((addFile twins "b.yaml").run.run (run [] added)).1 = .ok () := by
  intro refused added
  obtain ⟨config, hread⟩ : ∃ config, readFile twins "b.yaml" = .ok ("N", config) := by
    have h : (readFile twins "b.yaml").toOption.map Prod.fst = some "N" := by decide +kernel
    obtain ⟨⟨name, config⟩, hread, rfl⟩ := Option.map_eq_some_iff.1 h
    exact ⟨config, eq_ok_of_toOption hread⟩
  have hrefused : (last? (history [] refused) "N").bind PoolEntry.origin = some "a.yaml" := by
    decide +kernel
  have hadded : (last? (history [] added) "N").bind PoolEntry.origin = none := by decide +kernel
  have h := (file_refused_iff_last_from_file refused).2.1 twins "b.yaml" "N" config hread
  have h' := (file_refused_iff_last_from_file added).2.1 twins "b.yaml" "N" config hread
  rw [hrefused] at h
  rw [hadded] at h'
  exact ⟨h, congrArg Prod.fst h'⟩

end Theming.Pool
