import Cyclomatic.Command.Run
import Mathlib.Data.List.Nodup
import Mathlib.Data.String.Basic

/-!
# Which files a scan finds

A scan prunes folders on its way and then filters the files that it has found.  Both together ask
each file for its path alone (`Path.Scanned`): the walk finds a file just if every folder between it
and the start is entered (`Tree.mem_files`), and the filter looks at the path.  So a scan takes
exactly the files at such paths, in increasing order (`sources_scanned`).

What is left out by the configuration may be any predicate on paths.  Trees that differ in the order
of their entries are `Tree.Relisted`, and the same files are found in them.
-/

namespace Cyclomatic

/-! ## The order of paths -/

namespace Path

theorem le_trans (a b c : Path) (hab : le a b) (hbc : le b c) : le a c := by
  induction a generalizing b c with
  | nil => rfl
  | cons x xs ih =>
    cases b with
    | nil => cases hab
    | cons y ys =>
      cases c with
      | nil => cases hbc
      | cons z zs =>
        simp only [le, Bool.or_eq_true, decide_eq_true_eq, Bool.and_eq_true, beq_iff_eq] at *
        grind

theorem le_total (a b : Path) : le a b || le b a := by
  induction a generalizing b with
  | nil => rfl
  | cons x xs ih =>
    cases b with
    | nil => rfl
    | cons y ys =>
      have htail := ih ys
      simp only [le, Bool.or_eq_true, decide_eq_true_eq, Bool.and_eq_true, beq_iff_eq] at *
      grind

theorem le_antisymm {a b : Path} (hab : le a b) (hba : le b a) : a = b := by
  induction a generalizing b with
  | nil =>
    cases b with
    | nil => rfl
    | cons y ys => cases hba
  | cons x xs ih =>
    cases b with
    | nil => cases hab
    | cons y ys =>
      simp only [le, Bool.or_eq_true, decide_eq_true_eq, Bool.and_eq_true, beq_iff_eq] at *
      grind

/-- The order before sorting does not matter. -/
theorem mergeSort_eq_of_perm {ps qs : List Path} (h : ps.Perm qs) :
    ps.mergeSort le = qs.mergeSort le := by
  have hsorted (ps : List Path) : (ps.mergeSort le).Pairwise fun a b => le a b :=
    List.pairwise_mergeSort le_trans le_total ps
  refine List.Perm.eq_of_pairwise (fun a b _ _ => le_antisymm) (hsorted ps) (hsorted qs) ?_
  exact ((List.mergeSort_perm ps _).trans h).trans (List.mergeSort_perm qs _).symm

end Path

/-! ## Files in a tree -/

namespace Tree

/-- A file stands at a path in a tree. -/
inductive FileAt : Tree → Path → Prop where
  | here (name : String) (bytes : List UInt8) : FileAt (.file name bytes) []
  | inside {root : String} {entries : List Tree} {t : Tree} {p : Path} :
      t ∈ entries → FileAt t p → FileAt (.folder root entries) (t.name :: p)

variable {enters : String → Bool} {t : Tree} {p : Path}

theorem fileAt_file_iff {name : String} {bytes : List UInt8} :
    FileAt (.file name bytes) p ↔ p = [] := by
  constructor
  · rintro ⟨⟩
    rfl
  · rintro rfl
    exact .here name bytes

theorem fileAt_folder_iff {root : String} {entries : List Tree} :
    FileAt (.folder root entries) p ↔ ∃ t ∈ entries, ∃ q, t.FileAt q ∧ p = t.name :: q := by
  constructor
  · rintro ⟨⟩
    rename_i t q hfile ht
    exact ⟨t, ht, q, hfile, rfl⟩
  · rintro ⟨t, ht, q, hq, rfl⟩
    exact .inside ht hq

/-- In a path below an entry, the name of the entry counts as that of a folder if it is one. -/
theorem forall_dropLast_iff (h : t.FileAt p) :
    (∀ name ∈ (t.name :: p).dropLast, enters name = true) ↔
      (t.isFolder = true → enters t.name = true) ∧ ∀ name ∈ p.dropLast, enters name = true := by
  cases h with
  | here => simp [isFolder]
  | inside => simp [isFolder, name]

/-- The paths that an entry of a folder adds to those of the folder. -/
def filesAsEntry (enters : String → Bool) (t : Tree) : List Path :=
  if t.isFolder && !enters t.name then [] else (t.files enters).map (t.name :: ·)

theorem filesIn_eq_flatMap (entries : List Tree) :
    filesIn enters entries = entries.flatMap (filesAsEntry enters) := by
  induction entries with
  | nil => rfl
  | cons t rest ih => rw [filesIn, ih, List.flatMap_cons, filesAsEntry]

theorem mem_filesAsEntry :
    p ∈ t.filesAsEntry enters ↔
      ∃ q ∈ t.files enters, (t.isFolder = true → enters t.name = true) ∧ p = t.name :: q := by
  unfold filesAsEntry
  split
  · rename_i hskip
    rw [Bool.and_eq_true, Bool.not_eq_true'] at hskip
    constructor
    · exact nofun
    · rintro ⟨q, -, henters, -⟩
      rw [henters hskip.1] at hskip
      cases hskip.2
  · rename_i hskip
    have henters : t.isFolder = true → enters t.name = true := by simpa using hskip
    rw [List.mem_map]
    constructor
    · rintro ⟨q, hq, rfl⟩
      exact ⟨q, hq, henters, rfl⟩
    · rintro ⟨q, hq, -, rfl⟩
      exact ⟨q, hq, rfl⟩

/-- Induction over the folders of a tree. -/
theorem induction {P : Tree → Prop} (file : ∀ name bytes, P (.file name bytes))
    (folder : ∀ root entries, (∀ t ∈ entries, P t) → P (.folder root entries)) (t : Tree) : P t :=
  match t with
  | .file name bytes => file name bytes
  | .folder root entries => folder root entries fun t _ => induction file folder t

/-- The walk finds the files that stand in folders it enters. -/
theorem mem_files (enters : String → Bool) (t : Tree) :
    p ∈ t.files enters ↔ t.FileAt p ∧ ∀ name ∈ p.dropLast, enters name = true := by
  induction t using induction generalizing p with
  | file name bytes =>
    rw [files, List.mem_singleton, fileAt_file_iff]
    constructor
    · rintro rfl
      exact ⟨rfl, nofun⟩
    · exact And.left
  | folder root entries ih =>
    rw [files, filesIn_eq_flatMap, List.mem_flatMap, fileAt_folder_iff]
    constructor
    · rintro ⟨t, ht, hp⟩
      obtain ⟨q, hq, henters, rfl⟩ := mem_filesAsEntry.mp hp
      obtain ⟨hfile, hnames⟩ := (ih t ht).mp hq
      exact ⟨⟨t, ht, q, hfile, rfl⟩, (forall_dropLast_iff hfile).mpr ⟨henters, hnames⟩⟩
    · rintro ⟨⟨t, ht, q, hfile, rfl⟩, hnames⟩
      obtain ⟨henters, hnames⟩ := (forall_dropLast_iff hfile).mp hnames
      exact ⟨t, ht, mem_filesAsEntry.mpr ⟨q, (ih t ht).mpr ⟨hfile, hnames⟩, henters, rfl⟩⟩

instance (t : Tree) (p : Path) : Decidable (t.FileAt p) :=
  decidable_of_iff (p ∈ t.files fun _ => true) (by simp [mem_files])

/-! ## Distinct names -/

/-- No two entries of a folder have the same name, in the whole tree. -/
inductive Distinct : Tree → Prop where
  | file (name : String) (bytes : List UInt8) : Distinct (.file name bytes)
  | folder {root : String} {entries : List Tree} :
      (entries.map name).Nodup → (∀ t ∈ entries, Distinct t) → Distinct (.folder root entries)

theorem distinct_folder_iff {root : String} {entries : List Tree} :
    Distinct (.folder root entries) ↔
      (entries.map name).Nodup ∧ ∀ t ∈ entries, Distinct t := by
  constructor
  · rintro ⟨⟩
    rename_i hnames hentries
    exact ⟨hnames, hentries⟩
  · exact fun h => .folder h.1 h.2

theorem nodup_filesAsEntry (h : (t.files enters).Nodup) : (t.filesAsEntry enters).Nodup := by
  unfold filesAsEntry
  split
  · exact List.nodup_nil
  · exact h.map List.cons_injective

/-- No file is found twice. -/
theorem nodup_files (h : t.Distinct) : (t.files enters).Nodup := by
  induction h with
  | file name bytes => exact List.nodup_singleton _
  | @folder root entries hnames _ ih =>
    rw [files, filesIn_eq_flatMap, List.nodup_flatMap]
    refine ⟨fun t ht => nodup_filesAsEntry (ih t ht), ?_⟩
    refine (List.pairwise_map.mp hnames).imp fun {t u} hne p ht hu => ?_
    obtain ⟨q, -, -, rfl⟩ := mem_filesAsEntry.mp ht
    obtain ⟨q', -, -, heq⟩ := mem_filesAsEntry.mp hu
    exact hne (List.cons.inj heq).1

/-! ## Other orders of listing -/

/-- The trees differ in the orders in which their folders list their entries. -/
inductive Relisted : Tree → Tree → Prop where
  | refl (t : Tree) : Relisted t t
  | trans {t u v : Tree} : Relisted t u → Relisted u v → Relisted t v
  | entries {root : String} {entries entries' : List Tree} :
      entries.Perm entries' → Relisted (.folder root entries) (.folder root entries')
  | inside {root : String} {t t' : Tree} (before after : List Tree) : Relisted t t' →
      Relisted (.folder root (before ++ t :: after)) (.folder root (before ++ t' :: after))

theorem Relisted.name_eq {t t' : Tree} (h : Relisted t t') :
    t'.name = t.name ∧ t'.isFolder = t.isFolder := by
  induction h with
  | refl => exact ⟨rfl, rfl⟩
  | trans _ _ ih ih' => exact ⟨ih'.1.trans ih.1, ih'.2.trans ih.2⟩
  | entries => exact ⟨rfl, rfl⟩
  | inside => exact ⟨rfl, rfl⟩

/-- The same files are found in every order. -/
theorem Relisted.perm_files {t t' : Tree} (h : Relisted t t') :
    (t.files enters).Perm (t'.files enters) := by
  induction h with
  | refl => exact .refl _
  | trans _ _ ih ih' => exact ih.trans ih'
  | entries hperm =>
    rw [files, files, filesIn_eq_flatMap, filesIn_eq_flatMap]
    exact hperm.flatMap_right _
  | @inside root t t' before after hrelisted ih =>
    have hentry : (t.filesAsEntry enters).Perm (t'.filesAsEntry enters) := by
      rw [filesAsEntry, filesAsEntry, hrelisted.name_eq.1, hrelisted.name_eq.2]
      split
      · exact .refl _
      · exact ih.map _
    rw [files, files, filesIn_eq_flatMap, filesIn_eq_flatMap, List.flatMap_append,
      List.flatMap_append, List.flatMap_cons, List.flatMap_cons]
    exact (hentry.append_right _).append_left _

end Tree

/-! ## Paths that a scan takes -/

theorem entersFolder_iff {tests : Bool} {name : String} :
    entersFolder tests name = true ↔
      name.toList.head? ≠ some '.' ∧ name ∉ skippedFolders ∧
        (tests = false → name ∉ testFolders) := by
  cases tests with
  | false => simp [entersFolder, and_assoc]
  | true => simp [entersFolder]

/-- A scan takes the file at a path below the folder where it starts. -/
structure Path.Scanned (registry : Registry) (tests : Bool) (excluded : Path → Bool) (p : Path) :
    Prop where
  /-- The extension of the file belongs to a language. -/
  known : ∃ language, registry.ownerOf? (extensionOf (p.getLastD "")) = some language
  /-- No folder on the way is hidden. -/
  visible : ∀ name ∈ p.dropLast, name.toList.head? ≠ some '.'
  /-- No folder on the way holds other things than sources of the project. -/
  unskipped : ∀ name ∈ p.dropLast, name ∉ skippedFolders
  /-- Unless tests are scanned, no folder on the way holds tests. -/
  untested : tests = false → ∀ name ∈ p.dropLast, name ∉ testFolders
  /-- The path is not left out. -/
  included : excluded p = false
  /-- Unless tests are scanned, the file has not the name of a test. -/
  notTest : tests = false → isTestName (p.getLastD "") = false

section Scanned

variable {registry : Registry} {tests : Bool} {excluded : Path → Bool} {p : Path}

/-- What is asked of the file and what is asked of the folders on the way to it. -/
theorem scanned_iff :
    p.Scanned registry tests excluded ↔
      takesFile registry tests excluded (p.getLastD "") p = true ∧
        ∀ name ∈ p.dropLast, entersFolder tests name = true := by
  have hfile : takesFile registry tests excluded (p.getLastD "") p = true ↔
      (∃ language, registry.ownerOf? (extensionOf (p.getLastD "")) = some language) ∧
        excluded p = false ∧ (tests = false → isTestName (p.getLastD "") = false) := by
    rw [takesFile, Bool.and_eq_true, Bool.and_eq_true, Option.isSome_iff_exists, and_assoc]
    cases tests with
    | false => simp
    | true => simp
  simp only [hfile, entersFolder_iff]
  constructor
  · intro h
    exact ⟨⟨h.known, h.included, h.notTest⟩, fun name hname =>
      ⟨h.visible name hname, h.unskipped name hname, fun htests => h.untested htests name hname⟩⟩
  · rintro ⟨⟨hknown, hincluded, hname⟩, hfolders⟩
    exact ⟨hknown, fun name h => (hfolders name h).1, fun name h => (hfolders name h).2.1,
      fun htests name h => (hfolders name h).2.2 htests, hincluded, hname⟩

instance (registry : Registry) (tests : Bool) (excluded : Path → Bool) (p : Path) :
    Decidable (p.Scanned registry tests excluded) :=
  decidable_of_iff _ scanned_iff.symm

/-- A path that is scanned without tests is scanned with them. -/
theorem Path.Scanned.withTests (h : p.Scanned registry false excluded) :
    p.Scanned registry true excluded :=
  { h with untested := nofun, notTest := nofun }

end Scanned

namespace Tree

section Sources

variable {registry : Registry} {tests : Bool} {excluded : Path → Bool} {t t' : Tree} {p : Path}
  {root : String} {entries : List Tree}

/-- The last name of a path that is not empty does not depend on the name of the root. -/
theorem getLastD_eq (h : p ≠ []) (a b : String) : p.getLastD a = p.getLastD b := by
  rw [List.getLastD_eq_getLast?, List.getLastD_eq_getLast?, List.getLast?_eq_some_getLast h]
  rfl

theorem ne_nil_of_mem_files {enters : String → Bool} (h : p ∈ (folder root entries).files enters) :
    p ≠ [] := by
  rintro rfl
  cases ((mem_files ..).mp h).1

/-- The name of the folder at the start does not matter. -/
theorem sourcesWithout_rename (root' : String) :
    (folder root' entries).sourcesWithout registry tests excluded =
      (folder root entries).sourcesWithout registry tests excluded := by
  have hfiles : (folder root' entries).files (entersFolder tests) =
      (folder root entries).files (entersFolder tests) := by rw [files, files]
  rw [sourcesWithout, sourcesWithout, hfiles]
  refine congrArg (List.mergeSort · Path.le) (List.filter_congr fun p hp => ?_)
  rw [getLastD_eq (ne_nil_of_mem_files hp) (folder root' entries).name]

/-- A scan of a folder takes the files whose paths are scanned. -/
theorem mem_sourcesWithout :
    p ∈ (folder root entries).sourcesWithout registry tests excluded ↔
      (folder root entries).FileAt p ∧ p.Scanned registry tests excluded := by
  rw [sourcesWithout, List.mem_mergeSort, List.mem_filter, mem_files, scanned_iff]
  have hname (hfile : (folder root entries).FileAt p) :
      p.getLastD (folder root entries).name = p.getLastD "" := by
    refine getLastD_eq ?_ _ _
    rintro rfl
    cases hfile
  constructor
  · rintro ⟨⟨hfile, hfolders⟩, htakes⟩
    exact ⟨hfile, hname hfile ▸ htakes, hfolders⟩
  · rintro ⟨hfile, htakes, hfolders⟩
    exact ⟨⟨hfile, hfolders⟩, (hname hfile).symm ▸ htakes⟩

theorem pairwise_sourcesWithout :
    (t.sourcesWithout registry tests excluded).Pairwise fun p q => Path.le p q :=
  List.pairwise_mergeSort Path.le_trans Path.le_total _

theorem nodup_sourcesWithout (h : t.Distinct) :
    (t.sourcesWithout registry tests excluded).Nodup :=
  (List.mergeSort_perm ..).nodup_iff.mpr ((nodup_files h).filter _)

/-- The order in which folders list their entries does not matter. -/
theorem Relisted.sourcesWithout_eq (h : Relisted t t') :
    t'.sourcesWithout registry tests excluded = t.sourcesWithout registry tests excluded := by
  rw [sourcesWithout, sourcesWithout, h.name_eq.1]
  exact Path.mergeSort_eq_of_perm (h.perm_files.symm.filter _)

end Sources

end Tree

/-- A scan of a folder takes a file by its path.  It takes exactly the files below the folder whose
extension belongs to a language, for which no folder on the way is kept out, whose path is not left
out and which are not tests, unless tests are scanned.  They come in increasing order of paths, and
once each, since no folder has two entries of one name.  Neither the order in which folders list
their entries nor the name of the folder at the start matters.  Scanning tests keeps every file. -/
theorem sources_scanned (registry : Registry) (tests : Bool) (excluded : Path → Bool)
    (root : String) (entries : List Tree) :
    (∀ p, p ∈ (Tree.folder root entries).sourcesWithout registry tests excluded ↔
        (Tree.folder root entries).FileAt p ∧ p.Scanned registry tests excluded) ∧
      (((Tree.folder root entries).sourcesWithout registry tests excluded).Pairwise fun p q =>
        Path.le p q) ∧
      ((Tree.folder root entries).Distinct →
        ((Tree.folder root entries).sourcesWithout registry tests excluded).Nodup) ∧
      (∀ t, (Tree.folder root entries).Relisted t →
        t.sourcesWithout registry tests excluded =
          (Tree.folder root entries).sourcesWithout registry tests excluded) ∧
      (∀ root', (Tree.folder root' entries).sourcesWithout registry tests excluded =
        (Tree.folder root entries).sourcesWithout registry tests excluded) ∧
      (∀ p ∈ (Tree.folder root entries).sourcesWithout registry false excluded,
        p ∈ (Tree.folder root entries).sourcesWithout registry true excluded) ∧
      ∀ (config : Config) (here : Place) (path : String) (around : List Tree),
        config.scansTests = tests → (∀ p : Path, config.excludes p.text = excluded p) →
        here.find path = .ok ⟨.folder root entries, around⟩ →
        here.sources registry config path =
          .ok (((Tree.folder root entries).sourcesWithout registry tests excluded).map fun p =>
            Path.joined path p.text) := by
  refine ⟨fun p => Tree.mem_sourcesWithout, Tree.pairwise_sourcesWithout, Tree.nodup_sourcesWithout,
    fun t h => h.sourcesWithout_eq, Tree.sourcesWithout_rename, fun p hp => ?_,
    fun config here path around htests hexcluded hfind => ?_⟩
  · rw [Tree.mem_sourcesWithout] at hp ⊢
    exact ⟨hp.1, hp.2.withTests⟩
  · rw [Place.sources, hfind, ← htests, ← funext hexcluded]
    rfl

/-- Two extensions and the languages that own them. -/
def goAndJava : Registry := { owners := [("go", "go"), ("java", "java")] }

/-- A folder with tests, a hidden folder, a folder of foreign sources and a generated file. -/
def mixedEntries : List Tree := [
  .folder "src" [.file "CaseTest.java" [], .file "Case.java" []],
  .folder ".git" [.file "hidden.go" []],
  .folder "vendor" [.file "foreign.go" []],
  .folder "test" [.file "tests.go" []],
  .file "generated.go" [],
  .file "notes.md" []]

/-- Tests are scanned, and generated files are left out. -/
def withTests : Config := { excludedPaths := ["generated.*"], includeTests := some true }

/-- The folder at the start has the name of a test folder, which does not matter.  A folder of this
name below it is entered only if tests are scanned. -/
theorem sources_scanned_mixed :
    (Tree.folder "test" mixedEntries).Distinct ∧
      (Tree.folder "test" mixedEntries).Relisted (.folder "test" mixedEntries.reverse) ∧
      Place.find ⟨.folder "test" mixedEntries, []⟩ "." = .ok ⟨.folder "test" mixedEntries, []⟩ ∧
      ∃ paths : List Path, paths.Nodup ∧
        (∀ tests, ["src", "Case.java"] ∈ (Tree.folder "test" mixedEntries).sourcesWithout goAndJava
          tests fun p => withTests.excludes p.text) ∧
        ["test", "tests.go"] ∈ paths ∧ ["generated.go"] ∉ paths ∧
        ["test", "tests.go"] ∉ (Tree.folder "test" mixedEntries).sourcesWithout goAndJava false
          (fun p => withTests.excludes p.text) ∧
        (Tree.folder "test" mixedEntries.reverse).sourcesWithout goAndJava true
          (fun p => withTests.excludes p.text) = paths ∧
        Place.sources ⟨.folder "test" mixedEntries, []⟩ goAndJava withTests "." =
          .ok (paths.map fun p => Path.joined "." p.text) := by
  have hdistinct : (Tree.folder "test" mixedEntries).Distinct := by
    simp [mixedEntries, Tree.distinct_folder_iff, Tree.Distinct.file, Tree.name]
  have hrelisted :
      (Tree.folder "test" mixedEntries).Relisted (.folder "test" mixedEntries.reverse) :=
    .entries (List.reverse_perm _).symm
  obtain ⟨hmem, -, hnodup, hlisted, -, hmore, hplace⟩ := sources_scanned goAndJava true
    (fun p => withTests.excludes p.text) "test" mixedEntries
  obtain ⟨hmem', -⟩ := sources_scanned goAndJava false (fun p => withTests.excludes p.text) "test"
    mixedEntries
  have hcase : ["src", "Case.java"] ∈ (Tree.folder "test" mixedEntries).sourcesWithout goAndJava
      false fun p => withTests.excludes p.text :=
    (hmem' _).mpr ⟨by decide +kernel, by decide +kernel⟩
  refine ⟨hdistinct, hrelisted, rfl, _, hnodup hdistinct, ?_, ?_, ?_, ?_, hlisted _ hrelisted,
    hplace withTests _ "." [] rfl (fun _ => rfl) rfl⟩
  · rintro (_ | _)
    · exact hcase
    · exact hmore _ hcase
  · exact (hmem _).mpr ⟨by decide +kernel, by decide +kernel⟩
  · rw [hmem]
    decide +kernel
  · rw [hmem']
    decide +kernel

end Cyclomatic
