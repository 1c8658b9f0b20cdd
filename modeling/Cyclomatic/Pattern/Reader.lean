import Cyclomatic.Pattern.Basic

/-!
# Reading patterns

A pattern is read from left to right.  A group keeps its alternatives and the sequence that is
being read, and a repetition takes the last item of the sequence.

* A repetition without an item before it is refused, and so are a group or class that is not
  closed, a closing parenthesis without group, a range that runs backwards, and an escape that
  has no meaning.
* Flags hold up to the end of the group in which they are set, across its alternatives.
* Character properties by name, references to groups and conditions on the text around are not
  known.

Each call of the reader takes at least one character, so the number of characters bounds the
depth of the recursion.
-/

namespace Cyclomatic

namespace Pattern

/-- What the flags of a pattern change. -/
structure Flags where
  /-- Case is ignored. -/
  fold : Bool := false
  /-- Anchors hold at lines. -/
  lines : Bool := false
  /-- The dot takes line feeds too. -/
  dotAll : Bool := false
  /-- Blanks and comments are skipped. -/
  verbose : Bool := false
deriving DecidableEq, Repr

/-! ## Numbers and names -/

/-- The number that digits denote.  There must be one, and it must fit into 32 bits. -/
def readNat? (ds : List Char) : Option Nat :=
  if ds.isEmpty then none
  else
    let n := ds.foldl (fun n d => 10 * n + (d.toNat - 48)) 0
    if n < 4294967296 then some n else none

/-- The code point that hexadecimal digits denote. -/
def readHex? (ds : List Char) : Option Char :=
  let digit? (c : Char) : Option Nat :=
    if Text.isAsciiDigit c then some (c.toNat - 48)
    else if 97 ≤ c.toNat && c.toNat ≤ 102 then some (c.toNat - 87)
    else if 65 ≤ c.toNat && c.toNat ≤ 70 then some (c.toNat - 55)
    else none
  match ds with
  | [] => none
  | _ =>
    (ds.foldlM (fun n d => (digit? d).map (16 * n + ·)) 0).bind fun n =>
      if n.isValidChar then some (Char.ofNat n) else none

/-- The name of a group, up to its closing angle. -/
def readName? (cs : List Char) : Option (String × List Char) :=
  let name := cs.takeWhile (· != '>')
  match name, cs.drop name.length with
  | first :: more, _ :: rest =>
    let starts := first == '_' || Text.isLetter first
    let continues (c : Char) := ['_', '.', '[', ']'].contains c || Text.isAlphanumeric c
    if starts && more.all continues then some (String.ofList name, rest) else none
  | _, _ => none

/-! ## Escapes -/

/-- What an escape denotes. -/
inductive Escape where
  | char (c : Char)
  | shorthand (negated : Bool) (kind : Shorthand)
  | anchor (a : Anchor)
deriving DecidableEq, Repr

/-- Hexadecimal digits in braces, or a fixed number of them. -/
def hexEscape? (count : Nat) (cs : List Char) : Option (Escape × List Char) :=
  match cs with
  | '\x7b' :: cs =>
    let ds := cs.takeWhile (· != '\x7d')
    match cs.drop ds.length with
    | _ :: rest => (readHex? ds).map fun c => (.char c, rest)
    | [] => none
  | cs =>
    if cs.length < count then none
    else (readHex? (cs.take count)).map fun c => (.char c, cs.drop count)

/-- A word boundary, which a name in braces can narrow to one side. -/
def boundaryEscape? (cs : List Char) : Option (Escape × List Char) :=
  match cs with
  | '\x7b' :: inner =>
    let name := inner.takeWhile (fun c => Text.isAsciiLetter c || c == '-')
    match inner.drop name.length with
    | '\x7d' :: rest =>
      match String.ofList name with
      | "start" => some (.anchor .wordStart, rest)
      | "end" => some (.anchor .wordEnd, rest)
      | _ => none
    | _ => if name.isEmpty then some (.anchor .wordBoundary, cs) else none
  | _ => some (.anchor .wordBoundary, cs)

/-- The escape after a backslash.  Every ASCII symbol but the angles escapes itself. -/
def escape? (cs : List Char) : Option (Escape × List Char) :=
  match cs with
  | [] => none
  | c :: rest =>
    match c with
    | 'd' => some (.shorthand false .digit, rest)
    | 'D' => some (.shorthand true .digit, rest)
    | 's' => some (.shorthand false .space, rest)
    | 'S' => some (.shorthand true .space, rest)
    | 'w' => some (.shorthand false .word, rest)
    | 'W' => some (.shorthand true .word, rest)
    | 'a' => some (.char (Char.ofNat 7), rest)
    | 'f' => some (.char (Char.ofNat 12), rest)
    | 't' => some (.char '\t', rest)
    | 'n' => some (.char '\n', rest)
    | 'r' => some (.char '\r', rest)
    | 'v' => some (.char (Char.ofNat 11), rest)
    | 'A' => some (.anchor .textStart, rest)
    | 'z' => some (.anchor .textEnd, rest)
    | 'b' => boundaryEscape? rest
    | 'B' => some (.anchor .noWordBoundary, rest)
    | '<' => some (.anchor .wordStart, rest)
    | '>' => some (.anchor .wordEnd, rest)
    | 'x' => hexEscape? 2 rest
    | 'u' => hexEscape? 4 rest
    | 'U' => hexEscape? 8 rest
    | c =>
      if Text.isAscii c && !Text.isAsciiLetter c && !Text.isAsciiDigit c then
        some (.char c, rest)
      else none

/-! ## Classes -/

/-- The named ASCII classes. -/
def asciiClass? (name : String) : Option CharSet :=
  let ranges (rs : List (Char × Char)) : CharSet :=
    rs.foldl (fun set r => .union set (.range r.1 r.2)) .none
  match name with
  | "alnum" => some (ranges [('0', '9'), ('A', 'Z'), ('a', 'z')])
  | "alpha" => some (ranges [('A', 'Z'), ('a', 'z')])
  | "ascii" => some (ranges [(Char.ofNat 0, Char.ofNat 127)])
  | "blank" => some (ranges [('\t', '\t'), (' ', ' ')])
  | "cntrl" => some (ranges [(Char.ofNat 0, Char.ofNat 31), (Char.ofNat 127, Char.ofNat 127)])
  | "digit" => some (ranges [('0', '9')])
  | "graph" => some (ranges [('!', '~')])
  | "lower" => some (ranges [('a', 'z')])
  | "print" => some (ranges [(' ', '~')])
  | "punct" => some (ranges [('!', '/'), (':', '@'), ('[', Char.ofNat 96), (Char.ofNat 123, '~')])
  | "space" => some (ranges [('\t', '\r'), (' ', ' ')])
  | "upper" => some (ranges [('A', 'Z')])
  | "word" => some (ranges [('0', '9'), ('A', 'Z'), ('_', '_'), ('a', 'z')])
  | "xdigit" => some (ranges [('0', '9'), ('A', 'F'), ('a', 'f')])
  | _ => none

/-- A named class after an opening bracket, such as `:alpha:]`. -/
def namedClass? (cs : List Char) : Option (CharSet × List Char) :=
  match cs with
  | ':' :: cs =>
    let (negated, cs) :=
      match cs with
      | '^' :: cs => (true, cs)
      | cs => (false, cs)
    let name := cs.takeWhile (· != ':')
    match cs.drop name.length with
    | ':' :: ']' :: rest =>
      (asciiClass? (String.ofList name)).map fun set => (.bracket negated false set, rest)
    | _ => none
  | _ => none

/-- Blanks and comments at the front, which verbose patterns skip. -/
def skipVerbose (flags : Flags) (comment : Bool) : List Char → List Char
  | [] => []
  | c :: cs =>
    if !flags.verbose then c :: cs
    else if comment then skipVerbose flags (c != '\n') cs
    else if c == '#' then skipVerbose flags true cs
    else if Text.isBlank c then skipVerbose flags false cs
    else c :: cs

/-- One item of a class: a character or a shorthand. -/
def classItem? (cs : List Char) : Option (Escape × List Char) :=
  match cs with
  | [] => none
  | '\\' :: cs =>
    match escape? cs with
    | some (.anchor _, _) => none
    | item => item
  | c :: cs => some (.char c, cs)

/-- The set of an item. -/
def Escape.set : Escape → CharSet
  | .char c => .range c c
  | .shorthand negated kind => .shorthand negated kind
  | .anchor _ => .none

/-- An item of a class or a range between two characters. -/
def classRange? (flags : Flags) (cs : List Char) : Option (CharSet × List Char) := do
  let (first, rest) ← classItem? cs
  match skipVerbose flags false rest with
  | '-' :: after =>
    match skipVerbose flags false after with
    | [] => none
    | ']' :: _ => some (first.set, rest)
    | '-' :: _ => some (first.set, rest)
    | after =>
      let (last, rest) ← classItem? after
      match first, last with
      | .char a, .char b => if a ≤ b then some (.range a b, rest) else none
      | _, _ => none
  | [] => none
  | _ => some (first.set, rest)

/-- The operator of two sets at the front. -/
def setOp? (cs : List Char) : Option (SetOp × List Char) :=
  match cs with
  | '&' :: '&' :: cs => some (.intersection, cs)
  | '-' :: '-' :: cs => some (.difference, cs)
  | '~' :: '~' :: cs => some (.symmetricDifference, cs)
  | _ => none

/-- The start of a class after its bracket: whether it is negated, and the dashes or the closing
bracket that stand for themselves there. -/
def classStart (flags : Flags) (cs : List Char) : Bool × CharSet × List Char :=
  let cs := skipVerbose flags false cs
  let (negated, cs) :=
    match cs with
    | '^' :: cs => (true, skipVerbose flags false cs)
    | cs => (false, cs)
  let dashes := cs.takeWhile (· == '-')
  match dashes, cs with
  | [], ']' :: rest => (negated, .range ']' ']', rest)
  | [], cs => (negated, .none, cs)
  | _, cs => (negated, .range '-' '-', cs.drop dashes.length)

/-- Join what stands before an operator with what stands after it. -/
def joinSets (flags : Flags) (before : Option (SetOp × CharSet)) (set : CharSet) : CharSet :=
  match before with
  | some (op, left) => .join op (.bracket false flags.fold left) (.bracket false flags.fold set)
  | none => set

/-- The rest of a class, with the set before the last operator and the items after it. -/
def readClass? (flags : Flags) (fuel : Nat) (negated : Bool)
    (before : Option (SetOp × CharSet)) (set : CharSet) (cs : List Char) :
    Option (CharSet × List Char) :=
  match fuel with
  | 0 => none
  | fuel + 1 =>
    match skipVerbose flags false cs with
    | [] => none
    | ']' :: rest => some (.bracket negated flags.fold (joinSets flags before set), rest)
    | '[' :: rest =>
      match namedClass? rest with
      | some (item, rest) => readClass? flags fuel negated before (.union set item) rest
      | none =>
        let (inner, first, rest) := classStart flags rest
        match readClass? flags fuel inner none first rest with
        | some (item, rest) => readClass? flags fuel negated before (.union set item) rest
        | none => none
    | cs =>
      match setOp? cs with
      | some (op, rest) =>
        readClass? flags fuel negated (some (op, joinSets flags before set)) .none rest
      | none =>
        match classRange? flags cs with
        | some (item, rest) => readClass? flags fuel negated before (.union set item) rest
        | none => none

/-! ## Repetitions -/

/-- A decimal number with blanks around it. -/
def spacedNat? (cs : List Char) : Option Nat × List Char :=
  let cs := cs.dropWhile Text.isBlank
  let ds := cs.takeWhile Text.isAsciiDigit
  (readNat? ds, (cs.drop ds.length).dropWhile Text.isBlank)

/-- The bounds of a counted repetition after its brace. -/
def bounds? (cs : List Char) : Option (Nat × Option Nat × List Char) := do
  let (least, rest) := spacedNat? cs
  let least ← least
  match rest with
  | '\x7d' :: rest => some (least, some least, rest)
  | ',' :: rest =>
    match rest.dropWhile Text.isBlank with
    | '\x7d' :: rest => some (least, none, rest)
    | rest =>
      let (most, rest) := spacedNat? rest
      let most ← most
      match rest with
      | '\x7d' :: rest => if least ≤ most then some (least, some most, rest) else none
      | _ => none
  | _ => none

/-- The repetition at the front of a text. -/
def repetition? (cs : List Char) : Option (Option (Nat × Option Nat × List Char)) :=
  match cs with
  | '*' :: rest => some (some (0, none, rest))
  | '+' :: rest => some (some (1, none, rest))
  | '?' :: rest => some (some (0, some 1, rest))
  | '\x7b' :: rest => some (bounds? rest)
  | _ => none

/-! ## Groups -/

/-- How a group starts. -/
inductive GroupStart where
  /-- Flags for the rest of the group around. -/
  | flags (flags : Flags)
  /-- A group with its own flags, and its name if it has one. -/
  | group (flags : Flags) (name : Option String)

/-- Set or clear one flag. -/
def Flags.set? (flags : Flags) (value : Bool) (c : Char) : Option Flags :=
  match c with
  | 'i' => some { flags with fold := value }
  | 'm' => some { flags with lines := value }
  | 's' => some { flags with dotAll := value }
  | 'x' => some { flags with verbose := value }
  | 'U' | 'u' | 'R' => some flags
  | _ => none

/-- Flags up to a colon or the end of the group.  Each stands once, and after a minus there is
one. -/
def readFlags? (flags : Flags) (value : Bool) (seen : List Char) :
    List Char → Option (GroupStart × List Char)
  | [] => none
  | c :: cs =>
    if c == ':' || c == ')' then
      if seen.head? == some '-' || (c == ')' && seen.isEmpty) then none
      else some (if c == ':' then .group flags none else .flags flags, cs)
    else if seen.contains c then none
    else if c == '-' then readFlags? flags false (c :: seen) cs
    else
      match flags.set? value c with
      | some flags => readFlags? flags value (c :: seen) cs
      | none => none

/-- The start of a group with a name, after the bracket that opens the name. -/
def namedGroup? (flags : Flags) (cs : List Char) : Option (GroupStart × List Char) :=
  (readName? cs).map fun (name, rest) => (.group flags (some name), rest)

/-- The start of a group after its parenthesis. -/
def groupStart? (flags : Flags) (cs : List Char) : Option (GroupStart × List Char) :=
  match cs with
  | '?' :: 'P' :: '<' :: rest => namedGroup? flags rest
  | '?' :: '<' :: '=' :: _ => none
  | '?' :: '<' :: '!' :: _ => none
  | '?' :: '<' :: rest => namedGroup? flags rest
  | '?' :: rest => readFlags? flags true [] rest
  | rest => some (.group flags none, rest)

/-- An item of a sequence.  Flags take no repetition. -/
inductive Item where
  | flags
  | pattern (p : Pattern)

/-- The pattern of an item. -/
def Item.toPattern : Item → Pattern
  | .flags => .empty
  | .pattern p => p

/-- The pattern of items, last first. -/
def sequence (items : List Item) : Pattern :=
  items.foldl (fun p item => .seq item.toPattern p) .empty

/-- The pattern of alternatives, last first. -/
def alternatives (last : Pattern) (before : List Pattern) : Pattern :=
  before.foldl (fun p q => .alt q p) last

/-- One character, up to case if it is ignored. -/
def literal (flags : Flags) (c : Char) : Pattern :=
  .one (if flags.fold then .bracket false true (.range c c) else .range c c)

/-- Any character, or any but a line feed. -/
def dot (flags : Flags) : Pattern :=
  .one (.bracket (!flags.dotAll) false (if flags.dotAll then
    .range (Char.ofNat 0) (Char.ofNat 0x10FFFF) else .range '\n' '\n'))

/-- The pattern of an escape. -/
def Escape.pattern (flags : Flags) : Escape → Pattern
  | .char c => literal flags c
  | .shorthand negated kind => .one (.shorthand negated kind)
  | .anchor a => .anchor a

/-- What has been read of a group, and the group names used so far. -/
structure Reading where
  /-- Alternatives that are complete, last first. -/
  done : List Pattern := []
  /-- Items of the alternative being read, last first. -/
  current : List Item := []
  /-- The names of groups. -/
  names : List String := []

/-- Add an item to the alternative being read. -/
def Reading.push (r : Reading) (p : Pattern) : Reading :=
  { r with current := .pattern p :: r.current }

/-- The pattern of a group that ends here. -/
def Reading.pattern (r : Reading) : Pattern := alternatives (sequence r.current) r.done

/-- Read a group to its end, which is a parenthesis unless it is the whole pattern. -/
def readGroup? (fuel : Nat) (inner : Bool) (flags : Flags) (r : Reading) (cs : List Char) :
    Option (Pattern × List String × List Char) :=
  match fuel with
  | 0 => none
  | fuel + 1 =>
    let cs := skipVerbose flags false cs
    match repetition? cs with
    | some bounds =>
      match bounds, r.current with
      | some (least, most, rest), .pattern p :: before =>
        let rest :=
          match rest with
          | '?' :: rest => rest
          | rest => rest
        readGroup? fuel inner flags { r with current := .pattern (.times p least most) :: before }
          rest
      | _, _ => none
    | none =>
      match cs with
      | [] => if inner then none else some (r.pattern, r.names, [])
      | ')' :: rest => if inner then some (r.pattern, r.names, rest) else none
      | '|' :: rest =>
        readGroup? fuel inner flags
          { r with done := sequence r.current :: r.done, current := [] } rest
      | '(' :: rest =>
        match groupStart? flags rest with
        | none => none
        | some (.flags flags, rest) =>
          readGroup? fuel inner flags { r with current := .flags :: r.current } rest
        | some (.group own name, rest) =>
          if name.any r.names.contains then none
          else
            match readGroup? fuel true own { names := name.toList ++ r.names } rest with
            | none => none
            | some (p, names, rest) =>
              readGroup? fuel inner flags { r.push p with names := names } rest
      | '[' :: rest =>
        let (negated, first, rest) := classStart flags rest
        match readClass? flags (rest.length + 1) negated none first rest with
        | none => none
        | some (set, rest) => readGroup? fuel inner flags (r.push (.one set)) rest
      | '\\' :: rest =>
        match escape? rest with
        | none => none
        | some (e, rest) => readGroup? fuel inner flags (r.push (e.pattern flags)) rest
      | '.' :: rest => readGroup? fuel inner flags (r.push (dot flags)) rest
      | '^' :: rest =>
        readGroup? fuel inner flags
          (r.push (.anchor (if flags.lines then .lineStart else .textStart))) rest
      | '$' :: rest =>
        readGroup? fuel inner flags
          (r.push (.anchor (if flags.lines then .lineEnd else .textEnd))) rest
      | c :: rest => readGroup? fuel inner flags (r.push (literal flags c)) rest

/-- Read a pattern. -/
def read? (s : String) : Option Pattern :=
  (readGroup? (s.length + 1) false {} {} s.toList).map (·.1)

end Pattern

end Cyclomatic
