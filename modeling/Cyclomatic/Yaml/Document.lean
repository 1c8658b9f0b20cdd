import Cyclomatic.Yaml.Token

/-!
# Documents of YAML

The tokens of a source are read into the value of its only document.  A missing node is a plain
scalar without characters, and so is an empty document.

Each reader returns what it has read and the tokens left.  Between two calls of the reader of
nodes a token is taken, so their number bounds the depth of the recursion.
-/

namespace Cyclomatic.Yaml

/-- A node that is not written. -/
def missing : Value := .plain ""

/-- The first token is one of those listed, or there is none. -/
def startsWith (stops : List Token) (ts : List Token) : Bool :=
  match ts with
  | [] => true
  | t :: _ => stops.contains t

/-- The tokens of a collection in brackets after the comma before an item.  The first item has
none. -/
def afterComma? (first : Bool) (ts : List Token) : Option (List Token) :=
  match first, ts with
  | true, ts => some ts
  | false, .flowEntry :: rest => some rest
  | false, _ => none

/-- The items of a list as a value, with the tokens left. -/
def ofItems (r : List Value × List Token) : Value × List Token := (.list false r.1, r.2)

/-- The members of a mapping as a value, with the tokens left. -/
def ofMembers (r : List (Value × Value) × List Token) : Value × List Token := (.map r.1, r.2)

mutual

/-- A node.  Inside brackets there are no block collections, and only as a key or value of a
block mapping a list need not be indented. -/
def node? (fuel : Nat) (block indentless : Bool) (ts : List Token) :
    Option (Value × List Token) :=
  match fuel with
  | 0 => none
  | fuel + 1 =>
    match ts with
    | .scalar plain text :: rest => some (if plain then .plain text else .text text, rest)
    | .blockEntry :: _ => if indentless then (indentless? fuel ts).map ofItems else none
    | .flowSequenceStart :: rest => (flowSequence? fuel true rest).map ofItems
    | .flowMappingStart :: rest => (flowMapping? fuel true rest).map ofMembers
    | .blockSequenceStart :: rest =>
      if block then (blockSequence? fuel rest).map ofItems else none
    | .blockMappingStart :: rest =>
      if block then (blockMapping? fuel rest).map ofMembers else none
    | _ => none

/-- A node, unless one of the listed tokens shows that it is missing. -/
def nodeUnless? (fuel : Nat) (stops : List Token) (block indentless : Bool)
    (ts : List Token) : Option (Value × List Token) :=
  match fuel with
  | 0 => none
  | fuel + 1 =>
    if startsWith stops ts then some (missing, ts) else node? fuel block indentless ts

/-- A value after its colon, if there is one. -/
def valueUnless? (fuel : Nat) (stops : List Token) (block indentless : Bool)
    (ts : List Token) : Option (Value × List Token) :=
  match fuel with
  | 0 => none
  | fuel + 1 =>
    match ts with
    | .value :: rest => nodeUnless? fuel stops block indentless rest
    | rest => some (missing, rest)

/-- The rest of a list by dashes. -/
def blockSequence? (fuel : Nat) (ts : List Token) : Option (List Value × List Token) :=
  match fuel with
  | 0 => none
  | fuel + 1 =>
    match ts with
    | .blockEntry :: rest => do
      let (v, rest) ← nodeUnless? fuel [.blockEntry, .blockEnd] true false rest
      let (vs, rest) ← blockSequence? fuel rest
      return (v :: vs, rest)
    | .blockEnd :: rest => some ([], rest)
    | _ => none

/-- The rest of a list by dashes that is not indented. -/
def indentless? (fuel : Nat) (ts : List Token) : Option (List Value × List Token) :=
  match fuel with
  | 0 => none
  | fuel + 1 =>
    match ts with
    | .blockEntry :: rest => do
      let (v, rest) ← nodeUnless? fuel [.blockEntry, .key, .value, .blockEnd] true false rest
      let (vs, rest) ← indentless? fuel rest
      return (v :: vs, rest)
    | ts => some ([], ts)

/-- The rest of a block mapping. -/
def blockMapping? (fuel : Nat) (ts : List Token) : Option (List (Value × Value) × List Token) :=
  match fuel with
  | 0 => none
  | fuel + 1 =>
    match ts with
    | .key :: rest => do
      let (k, rest) ← nodeUnless? fuel [.key, .value, .blockEnd] true true rest
      let (v, rest) ← valueUnless? fuel [.key, .value, .blockEnd] true true rest
      let (ms, rest) ← blockMapping? fuel rest
      return ((k, v) :: ms, rest)
    | .blockEnd :: rest => some ([], rest)
    | _ => none

/-- The rest of a list in brackets.  A key makes a mapping of one member. -/
def flowSequence? (fuel : Nat) (first : Bool) (ts : List Token) :
    Option (List Value × List Token) :=
  match fuel with
  | 0 => none
  | fuel + 1 =>
    match ts with
    | .flowSequenceEnd :: rest => some ([], rest)
    | ts => do
      let ts ← afterComma? first ts
      match ts with
      | .flowSequenceEnd :: rest => some ([], rest)
      | .key :: rest =>
        let (k, rest) ← nodeUnless? fuel [.value, .flowEntry, .flowSequenceEnd] false false rest
        let (v, rest) ← valueUnless? fuel [.flowEntry, .flowSequenceEnd] false false rest
        let (vs, rest) ← flowSequence? fuel false rest
        return (.map [(k, v)] :: vs, rest)
      | ts =>
        let (v, rest) ← node? fuel false false ts
        let (vs, rest) ← flowSequence? fuel false rest
        return (v :: vs, rest)

/-- The rest of a mapping in braces.  A node without colon is a key without value. -/
def flowMapping? (fuel : Nat) (first : Bool) (ts : List Token) :
    Option (List (Value × Value) × List Token) :=
  match fuel with
  | 0 => none
  | fuel + 1 =>
    match ts with
    | .flowMappingEnd :: rest => some ([], rest)
    | ts => do
      let ts ← afterComma? first ts
      match ts with
      | .flowMappingEnd :: rest => some ([], rest)
      | .key :: rest =>
        let (k, rest) ← nodeUnless? fuel [.value, .flowEntry, .flowMappingEnd] false false rest
        let (v, rest) ← valueUnless? fuel [.flowEntry, .flowMappingEnd] false false rest
        let (ms, rest) ← flowMapping? fuel false rest
        return ((k, v) :: ms, rest)
      | ts =>
        let (k, rest) ← node? fuel false false ts
        let (ms, rest) ← flowMapping? fuel false rest
        return ((k, missing) :: ms, rest)

end

/-- The node of a document.  After a mark of documents it may be missing. -/
def content? (ts : List Token) : Option (Value × List Token) :=
  let fuel := 4 * ts.length + 4
  match ts with
  | [] => some (missing, [])
  | .documentStart :: rest =>
    if startsWith [.documentStart, .documentEnd] rest then some (missing, rest)
    else node? fuel true false rest
  | ts => node? fuel true false ts

/-- The value of the only document of a source.  A source without document is empty. -/
def document? (source : String) : Option Value := do
  let (v, ts) ← content? (← tokens? source)
  if (ts.dropWhile (· == .documentEnd)).isEmpty then some v else none

end Cyclomatic.Yaml
