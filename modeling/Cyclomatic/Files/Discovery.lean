import Cyclomatic.Config
import Cyclomatic.Files.Tree

/-!
# Finding files

A scan of a folder takes every file below it that belongs to a language.  Three things keep a
file out.

* A folder on the way is hidden, or has one of the names of folders that hold no sources of the
  project.  Unless tests are scanned, the names of test folders count too.
* The configuration leaves out its path.
* Its name is that of a test, unless tests are scanned.

The folder where the scan starts is never looked at, whatever its name is.  The files found are
ordered by path.
-/

namespace Cyclomatic

/-! ## Names -/

/-- Folders that hold no sources of the project. -/
def skippedFolders : List String := ["vendor", "node_modules", "build", "target"]

/-- Folders that hold tests. -/
def testFolders : List String :=
  ["testdata", "test_data", "tests", "test", "__tests__", "__test__"]

/-- A scan goes into a folder of this name. -/
def entersFolder (tests : Bool) (name : String) : Bool :=
  name.toList.head? != some '.' && !skippedFolders.contains name &&
    (tests || !testFolders.contains name)

/-- The extension of a file name: what follows the last dot.  A dot in front of the name does
not count. -/
def extensionOf (name : String) : String :=
  match (Text.splitAt '.' name).reverse with
  | last :: front :: rest => if rest.isEmpty && front.isEmpty then "" else last
  | _ => ""

/-- What precedes the first dot of a file name. -/
def stemOf (name : String) : String := (Text.splitAt '.' name).headD ""

/-- A file name is that of a test. -/
def isTestName (name : String) : Bool :=
  let stem := stemOf name
  Text.endsIn name "_test.go" || Text.occursIn ".test.".toList name.toList ||
    Text.occursIn ".spec.".toList name.toList ||
    (4 < stem.utf8ByteSize && (Text.endsIn stem "Test" || Text.endsIn stem "Tests"))

/-! ## The walk -/

mutual

/-- The paths of the files in a tree.  A file is at the empty path, and folders that `enters`
refuses are left out. -/
def Tree.files (enters : String → Bool) : Tree → List Path
  | .file _ _ => [[]]
  | .folder _ entries => Tree.filesIn enters entries

/-- The paths of the files in the entries of a folder. -/
def Tree.filesIn (enters : String → Bool) : List Tree → List Path
  | [] => []
  | t :: rest =>
    (if t.isFolder && !enters t.name then [] else (Tree.files enters t).map (t.name :: ·)) ++
      Tree.filesIn enters rest

end

/-- A scan takes the file at a path.  The name of the file is given apart, since the path of a
file that is scanned alone is empty. -/
def takesFile (registry : Registry) (tests : Bool) (excluded : Path → Bool) (name : String)
    (path : Path) : Bool :=
  (registry.ownerOf? (extensionOf name)).isSome && !excluded path && (tests || !isTestName name)

/-- The paths that a scan of a tree takes, in increasing order, where `excluded` says which paths
are left out. -/
def Tree.sourcesWithout (registry : Registry) (tests : Bool) (excluded : Path → Bool)
    (t : Tree) : List Path :=
  let found := t.files (entersFolder tests)
  let taken := found.filter fun p => takesFile registry tests excluded (p.getLastD t.name) p
  taken.mergeSort Path.le

/-- The paths that a scan of a tree takes under a configuration. -/
def Tree.sources (registry : Registry) (config : Config) (t : Tree) : List Path :=
  t.sourcesWithout registry config.scansTests fun p => config.excludes p.text

/-! ## Configurations -/

/-- The names under which a configuration is looked for, in order. -/
def configNames : List String := ["branchcount.yaml", ".branchcount.yaml"]

/-- The path of the configuration in a folder. -/
def Place.discover? (here : Place) (folder : String) : Option String :=
  (configNames.map (Path.joined folder)).find? fun p => (here.read? p).isSome

end Cyclomatic
