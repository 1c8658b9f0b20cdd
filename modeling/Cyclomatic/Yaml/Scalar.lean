import Cyclomatic.Data.Value

/-!
# Scalars of YAML

A scalar is plain or stands in quotes.  Blanks inside it are kept until more text follows.  A
line break between two pieces of text becomes a space, and further line breaks stay.

A plain scalar ends before a colon that a blank follows, before a comment, before a line that is
indented too little and, inside brackets, before the marks of the brackets.
-/

namespace Cyclomatic.Yaml

/-! ## Characters -/

/-- A character ends a line. -/
def isBreak (c : Char) : Bool :=
  c == '\n' || c == '\r' || c.toNat == 0x85 || c.toNat == 0x2028 || c.toNat == 0x2029

/-- A space or a tab. -/
def isSpace (c : Char) : Bool := c == ' ' || c == '\t'

/-- The text is at an end, a blank or a line break. -/
def atBlank : List Char → Bool
  | [] => true
  | c :: _ => isSpace c || isBreak c

/-- A character may stand in a document. -/
def isAllowed (c : Char) : Bool :=
  let n := c.toNat
  n == 9 || n == 10 || n == 13 || (32 ≤ n && n ≤ 126) || n == 0x85 ||
    (0xA0 ≤ n && n ≤ 0xD7FF) || (0xE000 ≤ n && n ≤ 0xFFFD && n != 0xFEFF) || 0x10000 ≤ n

/-- The text starts with a mark of documents, which stands at the start of a line. -/
def atMarker (cs : List Char) : Bool :=
  match cs with
  | '-' :: '-' :: '-' :: rest => atBlank rest
  | '.' :: '.' :: '.' :: rest => atBlank rest
  | _ => false

/-! ## Positions -/

/-- The rest of a document and where it starts. -/
structure Cursor where
  /-- The characters ahead. -/
  rest : List Char
  /-- The number of characters passed. -/
  index : Nat := 0
  /-- The number of lines passed. -/
  line : Nat := 0
  /-- The number of characters passed on the line. -/
  column : Nat := 0
deriving DecidableEq, Repr

/-- Pass a number of characters of one line. -/
def Cursor.skip (c : Cursor) (n : Nat) : Cursor :=
  { c with rest := c.rest.drop n, index := c.index + n, column := c.column + n }

/-- Pass a line break.  A carriage return and a line feed are one. -/
def Cursor.skipLine (c : Cursor) : Cursor :=
  let n :=
    match c.rest with
    | '\r' :: '\n' :: _ => 2
    | _ => 1
  { rest := c.rest.drop n, index := c.index + n, line := c.line + 1, column := 0 }

/-- The character that a line break stands for. -/
def breakChar (c : Char) : Char :=
  if c.toNat == 0x2028 || c.toNat == 0x2029 then c else '\n'

/-! ## Text with gaps -/

/-- The text of a scalar so far, and the blanks and line breaks after it. -/
structure Folded where
  /-- The text, last character first. -/
  text : List Char := []
  /-- Blanks before any line break, last first. -/
  spaces : List Char := []
  /-- A line break has been passed since the text. -/
  broken : Bool := false
  /-- The first line break. -/
  first : Option Char := none
  /-- The line breaks after the first, last first. -/
  more : List Char := []
deriving DecidableEq, Repr

/-- Pass a space or a tab. -/
def Folded.space (f : Folded) (c : Char) : Folded :=
  if f.broken then f else { f with spaces := c :: f.spaces }

/-- Pass a line break. -/
def Folded.lineBreak (f : Folded) (c : Char) : Folded :=
  if f.broken then { f with more := breakChar c :: f.more }
  else { f with spaces := [], broken := true, first := some (breakChar c) }

/-- Add the gap to the text. -/
def Folded.join (f : Folded) : Folded :=
  let gap :=
    if !f.broken then f.spaces
    else if f.first == some '\n' then (if f.more.isEmpty then [' '] else f.more)
    else f.more ++ f.first.toList
  { text := gap ++ f.text }

/-- Add a character after the gap. -/
def Folded.push (f : Folded) (c : Char) : Folded :=
  let f := f.join
  { f with text := c :: f.text }

/-- The text. -/
def Folded.toString (f : Folded) : String := String.ofList f.text.reverse

/-! ## Plain scalars -/

/-- A plain scalar inside brackets ends before this character. -/
def endsFlow (c : Char) : Bool := [',', '[', ']', '\x7b', '\x7d'].contains c

/-- Read a plain scalar that is indented by at least `indent`.  `gap` says whether the last
character was a blank or a line break.  A colon before a mark of brackets is refused, and so is
a tab in the indentation. -/
def plain? (flow : Bool) (indent : Int) (fuel : Nat) (gap : Bool) (f : Folded) (c : Cursor) :
    Option (Folded × Cursor) :=
  match fuel with
  | 0 => some (f, c)
  | fuel + 1 =>
    match c.rest with
    | [] => some (f, c)
    | x :: ahead =>
      if isSpace x then
        if f.broken && (c.column : Int) < indent && x == '\t' then none
        else plain? flow indent fuel true (f.space x) (c.skip 1)
      else if isBreak x then plain? flow indent fuel true (f.lineBreak x) c.skipLine
      else if gap && !flow && (c.column : Int) < indent then some (f, c)
      else if gap && ((c.column == 0 && atMarker c.rest) || x == '#') then some (f, c)
      else if flow && x == ':' && ahead.head?.any (fun y => y == '?' || endsFlow y) then none
      else if (x == ':' && atBlank ahead) || (flow && endsFlow x) then some (f, c)
      else plain? flow indent fuel false (f.push x) (c.skip 1)

/-! ## Quoted scalars -/

/-- The character of an escape of one letter. -/
def escaped? (c : Char) : Option Char :=
  match c with
  | '0' => some (Char.ofNat 0)
  | 'a' => some (Char.ofNat 7)
  | 'b' => some (Char.ofNat 8)
  | 't' => some '\t'
  | '\t' => some '\t'
  | 'n' => some '\n'
  | 'v' => some (Char.ofNat 11)
  | 'f' => some (Char.ofNat 12)
  | 'r' => some '\r'
  | 'e' => some (Char.ofNat 27)
  | ' ' => some ' '
  | '"' => some '"'
  | '\x27' => some '\x27'
  | '/' => some '/'
  | '\\' => some '\\'
  | 'N' => some (Char.ofNat 0x85)
  | '_' => some (Char.ofNat 0xA0)
  | 'L' => some (Char.ofNat 0x2028)
  | 'P' => some (Char.ofNat 0x2029)
  | _ => none

/-- The number of hexadecimal digits of an escape. -/
def hexLength? (c : Char) : Option Nat :=
  match c with
  | 'x' => some 2
  | 'u' => some 4
  | 'U' => some 8
  | _ => none

/-- The character of an escape and the number of characters it takes after the backslash. -/
def escape? (cs : List Char) : Option (Char × Nat) := do
  let c ← cs.head?
  match hexLength? c with
  | some n =>
    let ds := (cs.drop 1).take n
    let code ← if ds.length == n then Value.digits? 16 ds else none
    if code.isValidChar then some (Char.ofNat code, n + 1) else none
  | none => (escaped? c).map fun x => (x, 1)

/-- Read a quoted scalar after its first quote.  A mark of documents inside it is refused. -/
def quoted? (single : Bool) (fuel : Nat) (f : Folded) (c : Cursor) : Option (String × Cursor) :=
  match fuel with
  | 0 => none
  | fuel + 1 =>
    match c.rest with
    | [] => none
    | x :: ahead =>
      if isSpace x then quoted? single fuel (f.space x) (c.skip 1)
      else if isBreak x then quoted? single fuel (f.lineBreak x) c.skipLine
      else if c.column == 0 && atMarker c.rest then none
      else if single then
        if x == '\x27' then
          if ahead.head? == some '\x27' then quoted? single fuel (f.push x) (c.skip 2)
          else some (f.join.toString, c.skip 1)
        else quoted? single fuel (f.push x) (c.skip 1)
      else if x == '"' then some (f.join.toString, c.skip 1)
      else if x == '\\' then
        if ahead.head?.any isBreak then
          quoted? single fuel { f.join with broken := true } (c.skip 1).skipLine
        else
          match escape? ahead with
          | some (y, n) => quoted? single fuel (f.push y) (c.skip (n + 1))
          | none => none
      else quoted? single fuel (f.push x) (c.skip 1)

end Cyclomatic.Yaml
