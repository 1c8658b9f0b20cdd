import Cyclomatic.Language.Canonical
import Cyclomatic.Language.Go
import Cyclomatic.Language.Java
import Cyclomatic.Language.JavaScript
import Cyclomatic.Language.Kotlin

/-!
# The registry

The registry maps the names of languages to their tables and file extensions to names.  A table
registered under a known name replaces the old one and takes the old extensions with it, unless
another language has claimed them since.  An extension belongs to the language that claimed it
last.
-/

namespace Cyclomatic

/-- The languages known, and who owns which extension. -/
structure Registry where
  /-- The tables, at most one for each name. -/
  tables : List Language := []
  /-- Extensions with the names of their languages, at most one row for each extension. -/
  owners : List (String × String) := []
deriving DecidableEq, Repr, Inhabited

/-- A table was refused. -/
structure Refusal where
  /-- The name as it was given. -/
  language : String
  /-- What is wrong with the table. -/
  fault : TableFault
deriving DecidableEq, Repr

/-- The wording of a refusal. -/
def Refusal.message (r : Refusal) : String :=
  "invalid rules for language " ++ Text.quote r.language ++ ": " ++ r.fault.message

namespace Registry

/-- No language. -/
def empty : Registry := {}

/-- The table stored under a name. -/
def table? (r : Registry) (id : String) : Option Language :=
  r.tables.find? (·.id == id)

/-- The owner of an extension in canonical form. -/
def owner? (r : Registry) (extension : String) : Option String :=
  (r.owners.find? (·.1 == extension)).map (·.2)

/-- The rows left when a language gives up the extensions it still owns. -/
def disown (owners : List (String × String)) (id : String) (extensions : List String) :
    List (String × String) :=
  owners.filter fun row => !(row.2 == id && extensions.contains row.1)

/-- An extension passes to a language. -/
def claim (owners : List (String × String)) (id extension : String) :
    List (String × String) :=
  (extension, id) :: owners.filter (·.1 != extension)

/-- Store a canonical table under its name. -/
def insert (r : Registry) (l : Language) : Registry :=
  let owners :=
    match r.table? l.id with
    | some previous => disown r.owners l.id previous.extensions
    | none => r.owners
  { tables := l :: r.tables.filter (·.id != l.id)
    owners := l.extensions.foldl (fun rows e => claim rows l.id e) owners }

/-- Check a table, bring it into canonical form and store it. -/
def register (r : Registry) (l : Language) : Except Refusal Registry :=
  match l.validate with
  | .ok table => .ok (r.insert table)
  | .error fault => .error ⟨l.id, fault⟩

/-- The registry after a table was offered to it, and the refusal if there was one.  A table that
is refused leaves the registry as it is. -/
def offer (r : Registry) (l : Language) : Registry × Option Refusal :=
  match r.register l with
  | .ok r => (r, none)
  | .error refusal => (r, some refusal)

/-- Register tables one after another, up to the first refusal. -/
def registerAll (r : Registry) (ls : List Language) : Except Refusal Registry :=
  ls.foldlM register r

/-- Go, Java, JavaScript, Kotlin and TypeScript. -/
def builtin : Registry :=
  [Language.Go.table, Language.Java.table, Language.JavaScript.table, Language.Kotlin.table,
    Language.JavaScript.typedTable].foldl (fun r l => r.insert l.canonical) empty

/-! ## Looking up -/

/-- Short names of languages. -/
def aliases : List (String × String) :=
  [("ts", "typescript"), ("js", "javascript"), ("kt", "kotlin"), ("golang", "go")]

/-- The name under which a language is looked up. -/
def canonicalId (name : String) : String :=
  let id := Text.lower (Text.trim name)
  match aliases.find? (·.1 == id) with
  | some (_, full) => full
  | none => id

/-- The table of a language by name or short name. -/
def lookup? (r : Registry) (name : String) : Option Language :=
  r.table? (canonicalId name)

/-- A name or short name is known. -/
def supports (r : Registry) (name : String) : Bool := (r.lookup? name).isSome

/-- The language that owns a file extension, with or without the dot. -/
def ownerOf? (r : Registry) (extension : String) : Option String :=
  r.owner? (canonicalExtension extension)

/-- All tables in increasing order of their names. -/
def languages (r : Registry) : List Language :=
  r.tables.mergeSort fun a b => a.id ≤ b.id

end Registry

end Cyclomatic
