import Cyclomatic.Text.Quoted

/-!
# JSON

A document is built as a value and then written, on one line or indented by two spaces for
each level.  Members keep the order in which they are given.
-/

namespace Cyclomatic

/-- A JSON value. -/
inductive Json where
  | null
  | bool (value : Bool)
  | nat (value : Nat)
  /-- A number with a decimal point, by its written form. -/
  | decimal (text : String)
  | str (value : String)
  | arr (items : List Json)
  | obj (members : List (String × Json))
deriving Inhabited

namespace Json

/-! ## Strings -/

/-- Two hexadecimal digits of a number below 256. -/
def hex2 (n : Nat) : List Char := [Nat.digitChar (n / 16), Nat.digitChar (n % 16)]

/-- One character as it is written between quotes. -/
def escape (c : Char) : List Char :=
  if c == '"' then ['\\', '"']
  else if c == '\\' then ['\\', '\\']
  else if c.toNat < 32 then
    match c.toNat with
    | 8 => ['\\', 'b']
    | 9 => ['\\', 't']
    | 10 => ['\\', 'n']
    | 12 => ['\\', 'f']
    | 13 => ['\\', 'r']
    | n => ['\\', 'u', '0', '0'] ++ hex2 n
  else [c]

/-- A text in quotes. -/
def quoted (s : String) : String := String.ofList ('"' :: s.toList.flatMap escape ++ ['"'])

/-! ## On one line -/

mutual

/-- A value on one line, without blanks. -/
def compact : Json → String
  | .null => "null"
  | .bool b => if b then "true" else "false"
  | .nat n => n.repr
  | .decimal text => text
  | .str s => quoted s
  | .arr [] => "[]"
  | .arr (x :: xs) => "[" ++ compact x ++ compactItems xs ++ "]"
  | .obj [] => "\x7b\x7d"
  | .obj ((k, x) :: xs) => "\x7b" ++ quoted k ++ ":" ++ compact x ++ compactMembers xs ++ "\x7d"

/-- The items after the first. -/
def compactItems : List Json → String
  | [] => ""
  | x :: xs => "," ++ compact x ++ compactItems xs

/-- The members after the first. -/
def compactMembers : List (String × Json) → String
  | [] => ""
  | (k, x) :: xs => "," ++ quoted k ++ ":" ++ compact x ++ compactMembers xs

end

/-! ## Indented -/

/-- The start of a line at a depth. -/
def newLine (depth : Nat) : String := "\n" ++ String.ofList (List.replicate (2 * depth) ' ')

mutual

/-- A value over several lines, at a depth. -/
def pretty (depth : Nat) : Json → String
  | .null => "null"
  | .bool b => if b then "true" else "false"
  | .nat n => n.repr
  | .decimal text => text
  | .str s => quoted s
  | .arr [] => "[]"
  | .arr (x :: xs) =>
    "[" ++ newLine (depth + 1) ++ pretty (depth + 1) x ++ prettyItems (depth + 1) xs ++
      newLine depth ++ "]"
  | .obj [] => "\x7b\x7d"
  | .obj ((k, x) :: xs) =>
    "\x7b" ++ newLine (depth + 1) ++ quoted k ++ ": " ++ pretty (depth + 1) x ++
      prettyMembers (depth + 1) xs ++ newLine depth ++ "\x7d"

/-- The items after the first. -/
def prettyItems (depth : Nat) : List Json → String
  | [] => ""
  | x :: xs => "," ++ newLine depth ++ pretty depth x ++ prettyItems depth xs

/-- The members after the first. -/
def prettyMembers (depth : Nat) : List (String × Json) → String
  | [] => ""
  | (k, x) :: xs =>
    "," ++ newLine depth ++ quoted k ++ ": " ++ pretty depth x ++ prettyMembers depth xs

end

/-! ## Building -/

/-- A list of texts. -/
def strs (xs : List String) : Json := .arr (xs.map .str)

/-- A value that may be missing. -/
def ofOption {α : Type} (f : α → Json) : Option α → Json
  | some x => f x
  | none => .null

/-- Members that are left out when the list they show is empty. -/
def nonEmpty {α : Type} (key : String) (f : List α → Json) (xs : List α) :
    List (String × Json) :=
  if xs.isEmpty then [] else [(key, f xs)]

end Json

end Cyclomatic
