/-!
# Values of documents

A document is read into a value first and into a type of the library after that.  Two formats
lead here.  One writes the type of every scalar.  The other has plain scalars, whose type is
left to the reader: the same characters are a number where a number is wanted and a text where
a text is wanted.

Reading a value either succeeds or fails.  Nothing is said about the reason.
-/

namespace Cyclomatic

/-- A value of a document. -/
inductive Value where
  | null
  | bool (value : Bool)
  /-- A number.  One with a fraction or an exponent has no value here. -/
  | number (value : Option Int)
  | text (value : String)
  /-- A scalar whose type is left to its reader. -/
  | plain (value : String)
  /-- A list.  In a positional list the items may stand for the fields of a record. -/
  | list (positional : Bool) (items : List Value)
  | map (members : List (Value × Value))
deriving Inhabited

namespace Value

/-! ## Plain scalars -/

/-- The value of a digit in a base. -/
def digit? (base : Nat) (c : Char) : Option Nat :=
  let n := c.toNat
  let value :=
    if 48 ≤ n && n ≤ 57 then some (n - 48)
    else if 97 ≤ n && n ≤ 122 then some (n - 87)
    else if 65 ≤ n && n ≤ 90 then some (n - 55)
    else none
  value.filter (· < base)

/-- The value of digits in a base, most significant first.  There must be one. -/
def digits? (base : Nat) (cs : List Char) : Option Nat :=
  if cs.isEmpty then none
  else cs.foldlM (fun n c => (digit? base c).map (base * n + ·)) 0

/-- The natural number that a plain scalar denotes.  It is decimal, or has a base mark.  A
leading zero before more digits makes it a text. -/
def plainNat? (s : String) : Option Nat :=
  let unsigned :=
    match s.toList with
    | '+' :: cs => cs
    | cs => cs
  match unsigned with
  | '0' :: 'x' :: cs => digits? 16 cs
  | '0' :: 'o' :: cs => digits? 8 cs
  | '0' :: 'b' :: cs => digits? 2 cs
  | ['0'] => some 0
  | '0' :: _ => none
  | cs => digits? 10 cs

/-- The truth value that a plain scalar denotes. -/
def plainBool? (s : String) : Option Bool :=
  if ["true", "True", "TRUE"].contains s then some true
  else if ["false", "False", "FALSE"].contains s then some false
  else none

/-- A plain scalar denotes nothing. -/
def plainIsNull (s : String) : Bool := ["", "~", "null", "Null", "NULL"].contains s

/-! ## Reading -/

/-- A text.  Any plain scalar is one. -/
def text? : Value → Option String
  | .text s => some s
  | .plain s => some s
  | _ => none

/-- A truth value. -/
def bool? : Value → Option Bool
  | .bool b => some b
  | .plain s => plainBool? s
  | _ => none

/-- A number from 0 up to 2^32 - 1. -/
def word? : Value → Option UInt32
  | .number (some (.ofNat n)) => if n < 4294967296 then some (UInt32.ofNat n) else none
  | .plain s => ((plainNat? s).filter (· < 4294967296)).map UInt32.ofNat
  | _ => none

/-- A text of one character. -/
def char? (v : Value) : Option Char :=
  match v.text?.map String.toList with
  | some [c] => some c
  | _ => none

/-- A value that may be null. -/
def option? {α : Type} (read : Value → Option α) : Value → Option (Option α)
  | .null => some none
  | .plain s => if plainIsNull s then some none else (read (.plain s)).map some
  | v => (read v).map some

/-- A list, every item read the same way.  A plain scalar without characters is empty. -/
def list? {α : Type} (read : Value → Option α) : Value → Option (List α)
  | .list _ items => items.mapM read
  | .plain s => if s.isEmpty then some [] else none
  | _ => none

/-- A list of texts. -/
def texts? : Value → Option (List String) := list? text?

/-! ## Records -/

/-- The fields of a record that are present. -/
abbrev Fields := List (String × Value)

/-- The members of a map whose keys name a field.  A field must not be named twice. -/
def fieldsOfMembers (names : List String) (members : List (Value × Value)) : Option Fields := do
  let keyed ← members.mapM fun m => m.1.text?.map fun key => (key, m.2)
  let known := keyed.filter fun m => names.contains m.1
  if known.map (·.1) |>.eraseDups |>.length |> (· == known.length) then some known else none

/-- The fields of a record with the given names.  A map gives them by name, a positional list
by position, and a plain scalar without characters gives none. -/
def fields? (names : List String) : Value → Option Fields
  | .map members => fieldsOfMembers names members
  | .list true items => if items.length ≤ names.length then some (names.zip items) else none
  | .plain s => if s.isEmpty then some [] else none
  | _ => none

/-- A field that must be present. -/
def required? {α : Type} (fields : Fields) (name : String) (read : Value → Option α) :
    Option α :=
  (fields.lookup name).bind read

/-- A field that has a default. -/
def optional? {α : Type} (fields : Fields) (name : String) (default : α)
    (read : Value → Option α) : Option α :=
  match fields.lookup name with
  | some v => read v
  | none => some default

end Value

end Cyclomatic
