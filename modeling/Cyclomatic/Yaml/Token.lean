import Cyclomatic.Yaml.Scalar

/-!
# Tokens of YAML

A document is cut into tokens first.  Block structure follows from columns: a deeper column
opens a collection, and a column further left closes the collections that are deeper.

Whether a scalar is a key is only known at the colon after it.  So a scalar that may be a key is
remembered with its position among the tokens, and the colon inserts the mark of the key there.
A key stands on one line and is at most 1024 characters away from its colon.  A scalar that
stands where only a key can stand must become one.

Anchors, tags, directives and block scalars are refused.
-/

namespace Cyclomatic.Yaml

/-- A token of a document. -/
inductive Token where
  | documentStart
  | documentEnd
  | blockSequenceStart
  | blockMappingStart
  | blockEnd
  | blockEntry
  | key
  | value
  | flowSequenceStart
  | flowSequenceEnd
  | flowMappingStart
  | flowMappingEnd
  | flowEntry
  /-- A scalar, and whether it is plain. -/
  | scalar (plain : Bool) (text : String)
deriving DecidableEq, Repr

/-- A scalar or collection that may turn out to be a key. -/
structure PossibleKey where
  /-- It stands where only a key can stand. -/
  required : Bool
  /-- Its position among the tokens. -/
  position : Nat
  /-- Where it starts. -/
  start : Cursor
deriving DecidableEq, Repr

/-- What has been cut so far. -/
structure Scanner where
  /-- The rest of the document. -/
  cursor : Cursor
  /-- The tokens. -/
  tokens : Array Token := #[]
  /-- The column of the innermost block collection. -/
  indent : Int := -1
  /-- The columns of the block collections around it, innermost first. -/
  indents : List Int := []
  /-- A key may start here. -/
  keyAllowed : Bool := true
  /-- The possible key outside of brackets. -/
  blockKey : Option PossibleKey := none
  /-- The possible key inside each open bracket, innermost first. -/
  flowKeys : List (Option PossibleKey) := []
deriving Repr

namespace Scanner

/-- Some bracket is open. -/
def inFlow (s : Scanner) : Bool := !s.flowKeys.isEmpty

/-- Append a token. -/
def push (s : Scanner) (t : Token) : Scanner := { s with tokens := s.tokens.push t }

/-- Append a token of some characters. -/
def take (s : Scanner) (n : Nat) (t : Token) : Scanner :=
  { s.push t with cursor := s.cursor.skip n }

/-- The innermost possible key. -/
def possibleKey (s : Scanner) : Option PossibleKey :=
  match s.flowKeys with
  | key :: _ => key
  | [] => s.blockKey

/-- Replace the innermost possible key. -/
def setKey (s : Scanner) (key : Option PossibleKey) : Scanner :=
  match s.flowKeys with
  | _ :: outer => { s with flowKeys := key :: outer }
  | [] => { s with blockKey := key }

/-- Give up the innermost possible key, which must not be required. -/
def dropKey? (s : Scanner) : Option Scanner :=
  if s.possibleKey.any (·.required) then none else some (s.setKey none)

/-- Remember that a key may start here. -/
def saveKey? (s : Scanner) : Option Scanner :=
  if s.keyAllowed then
    let key : PossibleKey :=
      { required := !s.inFlow && s.indent == (s.cursor.column : Int)
        position := s.tokens.size
        start := s.cursor }
    s.dropKey?.map (·.setKey (some key))
  else some s

/-- A possible key is too far away for a colon here. -/
def isStale (s : Scanner) (key : PossibleKey) : Bool :=
  key.start.line < s.cursor.line || key.start.index + 1024 < s.cursor.index

/-- Give up the possible keys that are too far away.  A required one must not be. -/
def dropStaleKeys? (s : Scanner) : Option Scanner :=
  let stale (key : Option PossibleKey) : Bool := key.any s.isStale
  let all := s.blockKey :: s.flowKeys
  if all.any fun key => stale key && key.any (·.required) then none
  else
    some { s with
      blockKey := s.blockKey.filter (!s.isStale ·)
      flowKeys := s.flowKeys.map fun key => key.filter (!s.isStale ·) }

/-- Open a block collection at a column, with its token at a position. -/
def roll (s : Scanner) (column : Nat) (position : Nat) (t : Token) : Scanner :=
  if !s.inFlow && s.indent < (column : Int) then
    { s with
      indent := column
      indents := s.indent :: s.indents
      tokens := s.tokens.insertIdx! position t }
  else s

/-- Close the block collections deeper than a column. -/
def unroll (s : Scanner) (column : Int) : Scanner :=
  if s.inFlow then s
  else
    let deeper := (s.indent :: s.indents).takeWhile (column < ·)
    match (s.indent :: s.indents).drop deeper.length with
    | indent :: indents =>
      { s with
        indent := indent
        indents := indents
        tokens := s.tokens ++ Array.replicate deeper.length .blockEnd }
    | [] => s

/-! ## Between tokens -/

/-- Pass blanks, comments and line breaks.  A line break outside of brackets lets a key start,
and a tab there separates tokens only where no key may start. -/
def skipGap (fuel : Nat) (comment : Bool) (s : Scanner) : Scanner :=
  match fuel with
  | 0 => s
  | fuel + 1 =>
    match s.cursor.rest with
    | [] => s
    | c :: _ =>
      if isBreak c then
        skipGap fuel false
          { s with cursor := s.cursor.skipLine, keyAllowed := s.keyAllowed || !s.inFlow }
      else if comment || c == ' ' || (c == '\t' && (s.inFlow || !s.keyAllowed)) then
        skipGap fuel comment { s with cursor := s.cursor.skip 1 }
      else if c == '#' then skipGap fuel true { s with cursor := s.cursor.skip 1 }
      else s

/-! ## Tokens -/

/-- A mark between documents. -/
def fetchMarker? (s : Scanner) (t : Token) : Option Scanner :=
  (s.unroll (-1)).dropKey?.map fun s => { s.take 3 t with keyAllowed := false }

/-- An opening bracket. -/
def fetchFlowStart? (s : Scanner) (t : Token) : Option Scanner :=
  s.saveKey?.map fun s =>
    { s.take 1 t with keyAllowed := true, flowKeys := none :: s.flowKeys }

/-- A closing bracket. -/
def fetchFlowEnd? (s : Scanner) (t : Token) : Option Scanner :=
  s.dropKey?.map fun s =>
    { s.take 1 t with keyAllowed := false, flowKeys := s.flowKeys.drop 1 }

/-- A comma inside brackets. -/
def fetchFlowEntry? (s : Scanner) : Option Scanner :=
  s.dropKey?.map fun s => { s.take 1 .flowEntry with keyAllowed := true }

/-- The dash of a list. -/
def fetchBlockEntry? (s : Scanner) : Option Scanner :=
  if !s.inFlow && !s.keyAllowed then none
  else
    (s.roll s.cursor.column s.tokens.size .blockSequenceStart).dropKey?.map fun s =>
      { s.take 1 .blockEntry with keyAllowed := true }

/-- A question mark before a key. -/
def fetchKey? (s : Scanner) : Option Scanner :=
  if !s.inFlow && !s.keyAllowed then none
  else
    (s.roll s.cursor.column s.tokens.size .blockMappingStart).dropKey?.map fun s =>
      { s.take 1 .key with keyAllowed := !s.inFlow }

/-- The colon of a value.  It makes a key of the possible key, if there is one. -/
def fetchValue? (s : Scanner) : Option Scanner :=
  match s.possibleKey with
  | some key =>
    let s := { s with tokens := s.tokens.insertIdx! key.position .key }
    let s := (s.roll key.start.column key.position .blockMappingStart).setKey none
    some { s.take 1 .value with keyAllowed := false }
  | none =>
    if !s.inFlow && !s.keyAllowed then none
    else
      let s := s.roll s.cursor.column s.tokens.size .blockMappingStart
      some { s.take 1 .value with keyAllowed := !s.inFlow }

/-- A scalar in quotes. -/
def fetchQuoted? (s : Scanner) (single : Bool) : Option Scanner := do
  let s ← s.saveKey?
  let (text, cursor) ← quoted? single s.cursor.rest.length {} (s.cursor.skip 1)
  return { s.push (.scalar false text) with cursor := cursor, keyAllowed := false }

/-- A plain scalar.  If line breaks follow it, a key may start after them. -/
def fetchPlain? (s : Scanner) : Option Scanner := do
  let s ← s.saveKey?
  let (f, cursor) ← plain? s.inFlow (s.indent + 1) s.cursor.rest.length false {} s.cursor
  return { s.push (.scalar true f.toString) with cursor := cursor, keyAllowed := f.broken }

/-- The end of the document. -/
def finish? (s : Scanner) : Option Scanner := (s.unroll (-1)).dropKey?

/-- Characters that start no plain scalar. -/
def indicators : List Char :=
  ['-', '?', ':', ',', '[', ']', '\x7b', '\x7d', '#', '&', '*', '!', '|', '>', '\x27', '"', '%',
    '@', '\x60']

/-- The next token. -/
def fetch? (s : Scanner) : Option Scanner :=
  let flow := s.inFlow
  if s.cursor.column == 0 && atMarker s.cursor.rest then
    s.fetchMarker? (if s.cursor.rest.head? == some '-' then .documentStart else .documentEnd)
  else
    match s.cursor.rest with
    | [] => none
    | c :: ahead =>
      if c == '%' && s.cursor.column == 0 then none
      else if c == '[' then s.fetchFlowStart? .flowSequenceStart
      else if c == '\x7b' then s.fetchFlowStart? .flowMappingStart
      else if c == ']' then s.fetchFlowEnd? .flowSequenceEnd
      else if c == '\x7d' then s.fetchFlowEnd? .flowMappingEnd
      else if c == ',' then s.fetchFlowEntry?
      else if c == '-' && atBlank ahead then s.fetchBlockEntry?
      else if c == '?' && (flow || atBlank ahead) then s.fetchKey?
      else if c == ':' && (flow || atBlank ahead) then s.fetchValue?
      else if c == '\x27' then s.fetchQuoted? true
      else if c == '"' then s.fetchQuoted? false
      else if !(isSpace c || indicators.contains c) ||
          (c == '-' && !ahead.head?.any isSpace) ||
          (!flow && (c == '?' || c == ':') && !atBlank ahead) then s.fetchPlain?
      else none

/-- All tokens.  Each step takes a character. -/
def run? (fuel : Nat) (s : Scanner) : Option (List Token) :=
  match fuel with
  | 0 => none
  | fuel + 1 => do
    let s := s.skipGap s.cursor.rest.length false
    let s ← s.dropStaleKeys?
    let s := s.unroll s.cursor.column
    if s.cursor.rest.isEmpty then return (← s.finish?).tokens.toList
    run? fuel (← s.fetch?)

end Scanner

/-- The tokens of a document. -/
def tokens? (source : String) : Option (List Token) :=
  let cs := source.toList
  let cs := if cs.head?.any (·.toNat == 0xFEFF) then cs.drop 1 else cs
  if cs.all isAllowed then Scanner.run? (cs.length + 1) { cursor := { rest := cs } } else none

end Cyclomatic.Yaml
