import Cyclomatic.Text.Words

/-!
# File trees

The program sees files and folders as a tree.  A *place* is a node of the tree together with the
folders around it.  The working folder is a place, and every path leads from there to another
place, or from the root if the path starts with a slash.

A path is walked one part after another.  A part that is empty or a dot stays, and two dots lead
to the folder around.  Only a folder can be walked through, and this also holds at the end: a
slash after a file leads nowhere.
-/

namespace Cyclomatic

/-! ## Trees -/

/-- A file or a folder. -/
inductive Tree where
  | file (name : String) (bytes : List UInt8)
  | folder (name : String) (entries : List Tree)
deriving Inhabited

namespace Tree

/-- The name of a node. -/
def name : Tree → String
  | .file name _ => name
  | .folder name _ => name

/-- A node is a folder. -/
def isFolder : Tree → Bool
  | .file _ _ => false
  | .folder _ _ => true

/-- Change the entry of a name, or append one. -/
def updateEntry (name : String) (change : Option Tree → Tree) : List Tree → List Tree
  | [] => [change none]
  | t :: rest =>
    if t.name == name then change (some t) :: rest else t :: updateEntry name change rest

/-- Put a file under a path of folders, which are made where they are missing. -/
def putFile (bytes : List UInt8) : List String → List Tree → List Tree
  | [], entries => entries
  | [name], entries => updateEntry name (fun _ => .file name bytes) entries
  | name :: rest, entries =>
    updateEntry name (fun
      | some (.folder _ inner) => .folder name (putFile bytes rest inner)
      | _ => .folder name (putFile bytes rest [])) entries

/-- Make a path of folders where they are missing. -/
def putFolder : List String → List Tree → List Tree
  | [], entries => entries
  | name :: rest, entries =>
    updateEntry name (fun
      | some (.folder _ inner) => .folder name (putFolder rest inner)
      | _ => .folder name (putFolder rest [])) entries

end Tree

/-! ## Paths -/

/-- The names on the way to a file, outermost first. -/
abbrev Path := List String

namespace Path

/-- A path as text. -/
def text (p : Path) : String := String.intercalate "/" p

/-- A path from the root as text. -/
def absolute (p : Path) : String := "/" ++ p.text

/-- The text of a folder and the text of a path below it as one text. -/
def joined (folder below : String) : String :=
  if folder.isEmpty || below.isEmpty || Text.endsIn folder "/" then folder ++ below
  else folder ++ "/" ++ below

/-- Paths are ordered name by name. -/
def le : Path → Path → Bool
  | [], _ => true
  | _ :: _, [] => false
  | a :: as, b :: bs => a < b || (a == b && le as bs)

end Path

/-! ## Places -/

/-- A node of a tree and the folders around it. -/
structure Place where
  /-- The node. -/
  node : Tree
  /-- The folders around it, innermost first. -/
  around : List Tree := []
deriving Inhabited

/-- A path leads nowhere. -/
inductive AccessFault where
  /-- There is no such file. -/
  | missing
  /-- A file stands where a folder is needed. -/
  | notFolder
  /-- A name is longer than a name can be. -/
  | nameTooLong
deriving DecidableEq, Repr

/-- The wording of a fault. -/
def AccessFault.message : AccessFault → String
  | .missing => "No such file or directory (os error 2)"
  | .notFolder => "Not a directory (os error 20)"
  | .nameTooLong => "File name too long (os error 36)"

/-- The greatest number of bytes in a name. -/
def maxNameBytes : Nat := 255

namespace Place

/-- The root of the tree. -/
def root (p : Place) : Place := ⟨p.around.getLastD p.node, []⟩

/-- The folder around a place.  The root is in itself. -/
def parent (p : Place) : Place :=
  match p.around with
  | [] => p
  | folder :: rest => ⟨folder, rest⟩

/-- The path from the root to a place. -/
def path (p : Place) : Path :=
  match p.around with
  | [] => []
  | outer => ((p.node :: outer).dropLast.map Tree.name).reverse

/-- Walk over one part of a path. -/
def walk (p : Place) (part : String) : Except AccessFault Place :=
  match p.node with
  | .file _ _ => .error .notFolder
  | .folder _ entries =>
    if part.isEmpty || part == "." then .ok p
    else if part == ".." then .ok p.parent
    else if maxNameBytes < part.utf8ByteSize then .error .nameTooLong
    else
      match entries.find? (·.name == part) with
      | some t => .ok ⟨t, p.node :: p.around⟩
      | none => .error .missing

/-- The place to which a path leads. -/
def find (here : Place) (path : String) : Except AccessFault Place :=
  if path.isEmpty then .error .missing
  else
    let start := if path.toList.head? == some '/' then here.root else here
    (Text.splitAt '/' path).foldlM walk start

/-- The bytes of the file to which a path leads. -/
def read? (here : Place) (path : String) : Option (List UInt8) :=
  match here.find path with
  | .ok ⟨.file _ bytes, _⟩ => some bytes
  | _ => none

end Place

end Cyclomatic
