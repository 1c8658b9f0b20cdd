import Cyclomatic.Language.Canonical
import Cyclomatic.Token.Basic

/-!
# Scanning

The scanner walks over the source once, driven by the table of a language.  Comments and
literals become single tokens, so nothing inside them is taken for code.  Code inside a literal
is scanned as code.

The scanner keeps a stack of modes.  `literal d` means that the text ahead belongs to a literal
with delimiter `d`.  `code d n` means that it is code inside such a literal, with `n` braces
open.  An empty stack means plain code.

In code, the first of these that applies makes the token.

* a line feed, then other blanks
* a line comment, then a block comment
* a quoted identifier, then a literal
* a word, then a number
* the first listed operator of more than one byte
* a single character

Scanning never fails.  An open literal, comment or piece of code ends with the input, and a
literal of one line ends before the line feed.  A marker of the table that is empty stands
nowhere, so every token of code has a character.  A literal resumed right before a line feed
gives an empty token, but then the stack gets shorter.  Hence each step makes
`2 * rest + modes` smaller, counting characters and modes.
-/

namespace Cyclomatic

/-! ## Pieces of text -/

namespace Scan

/-- What follows a marker at the front of a text.  An empty marker stands nowhere. -/
def after? (marker : String) (cs : List Char) : Option (List Char) :=
  if !marker.isEmpty && marker.toList.isPrefixOf cs then some (cs.drop marker.length)
  else none

/-- A piece taken from the front of a text, and the rest. -/
structure Cut where
  /-- The characters taken. -/
  taken : List Char
  /-- The characters left. -/
  rest : List Char
deriving DecidableEq, Repr

/-- The piece with more characters in front. -/
def Cut.prepend (front : List Char) (cut : Cut) : Cut := { cut with taken := front ++ cut.taken }

/-- The longest piece whose characters all satisfy `p`. -/
def takeAll (p : Char → Bool) (cs : List Char) : Cut := ⟨cs.takeWhile p, cs.dropWhile p⟩

/-- What is behind a marker makes up the text with the marker in front. -/
theorem after?_eq_some {marker : String} {cs r : List Char} (h : after? marker cs = some r) :
    cs = marker.toList ++ r ∧ 0 < marker.length := by
  unfold after? at h
  split at h
  · rename_i hp
    simp only [Bool.and_eq_true, Bool.not_eq_true', List.isPrefixOf_iff_prefix] at hp
    obtain ⟨hne, t, ht⟩ := hp
    have hlen : marker.toList.length = marker.length := String.length_toList
    have hr : r = t := by
      rw [← ht, ← hlen, List.drop_left] at h
      exact (Option.some.inj h).symm
    refine ⟨by rw [hr, ht], ?_⟩
    rw [← hlen]
    apply List.length_pos_iff.mpr
    intro hnil
    have : marker = "" := by
      rw [← String.toList_inj, hnil]
      rfl
    simp [this] at hne
  · exact absurd h (by simp)

theorem after?_length {marker : String} {cs r : List Char} (h : after? marker cs = some r) :
    r.length < cs.length := by
  obtain ⟨hcs, hpos⟩ := after?_eq_some h
  have : marker.toList.length = marker.length := String.length_toList
  rw [hcs, List.length_append]
  omega

/-! ## Comments -/

/-- The text of a block comment after its opening, with `outer` comments open around it. -/
def commentText (block : BlockComment) (nested : Bool) (outer : Nat) (cs : List Char) : Cut :=
  match cs with
  | [] => ⟨[], []⟩
  | c :: cs' =>
    match _ : after? block.closing (c :: cs') with
    | some r =>
      match outer with
      | 0 => ⟨block.closing.toList, r⟩
      | outer + 1 => (commentText block nested outer r).prepend block.closing.toList
    | none =>
      match hopen : if nested then after? block.opening (c :: cs') else none with
      | some r => (commentText block nested (outer + 1) r).prepend block.opening.toList
      | none => (commentText block nested outer cs').prepend [c]
termination_by cs.length
decreasing_by
  · exact after?_length (by assumption)
  · split at hopen
    · exact after?_length hopen
    · exact absurd hopen (by simp)
  · simp

/-! ## Literals -/

/-- Where the text of a literal stops. -/
inductive Stop where
  /-- After the closing delimiter. -/
  | closed
  /-- Before an opener of code, with what follows the opener. -/
  | opener (text : String) (code : List Char)
  /-- Before the line feed that ends a literal of one line. -/
  | lineBreak
  /-- At the end of the input. -/
  | inputEnd
deriving DecidableEq, Repr

/-- The text of a literal up to where it stops. -/
structure LiteralCut extends Cut where
  /-- Why it stops there. -/
  stop : Stop
deriving DecidableEq, Repr

/-- The cut with more characters in front. -/
def LiteralCut.prepend (front : List Char) (cut : LiteralCut) : LiteralCut :=
  { cut with taken := front ++ cut.taken }

/-- The opener of code at the front of a text, with what follows it. -/
def opener? (d : Delimiter) (cs : List Char) : Option (String × List Char) :=
  d.interpolation.bind fun text => (after? text cs).map fun code => (text, code)

/-- The text of a literal from its inside.  An escape goes before the closing delimiter, that
before an opener of code, and that before the line feed. -/
def literalText (d : Delimiter) : List Char → LiteralCut
  | [] => ⟨⟨[], []⟩, .inputEnd⟩
  | c :: cs =>
    if d.escape == some c then
      match cs with
      | [] => ⟨⟨[c], []⟩, .inputEnd⟩
      | e :: cs' => (literalText d cs').prepend [c, e]
    else
      match after? d.closing (c :: cs) with
      | some r => ⟨⟨d.closing.toList, r⟩, .closed⟩
      | none =>
        match opener? d (c :: cs) with
        | some (text, code) => ⟨⟨[], c :: cs⟩, .opener text code⟩
        | none =>
          if c == '\n' && !d.multiline then ⟨⟨[], c :: cs⟩, .lineBreak⟩
          else (literalText d cs).prepend [c]

/-! ## Numbers and names -/

/-- The characters of a number after its first digit.  A point belongs to it only before a
digit. -/
def numberText : List Char → Cut
  | [] => ⟨[], []⟩
  | c :: cs =>
    if Text.isAsciiLetter c || Text.isAsciiDigit c || c == '_' then (numberText cs).prepend [c]
    else if c == '.' && cs.head?.any Text.isAsciiDigit then (numberText cs).prepend [c]
    else ⟨[], c :: cs⟩

/-- The characters of a quoted identifier after its first quote.  It ends before a line feed. -/
def quotedText (quote : Char) (cs : List Char) : Cut :=
  let inside := takeAll (fun c => c != quote && c != '\n') cs
  match inside.rest with
  | c :: r => if c == quote then ⟨inside.taken ++ [c], r⟩ else inside
  | [] => inside

/-- Characters that are punctuation, each a token of its own. -/
def punctuation : List Char := ['\x7b', '\x7d', '(', ')', '[', ']', ';', ',', '.', '@']

/-! ## Modes -/

/-- What the text ahead belongs to, where it is not plain code. -/
inductive Mode where
  /-- The inside of a literal. -/
  | literal (delimiter : Delimiter)
  /-- Code inside a literal, with the number of braces open in it. -/
  | code (delimiter : Delimiter) (depth : Nat)
deriving DecidableEq, Repr

/-- What one step finds: a token without its offsets, the rest and the modes after it. -/
structure Found where
  /-- The kind of the token. -/
  kind : Kind
  /-- The characters of the token. -/
  taken : List Char
  /-- The characters left. -/
  rest : List Char
  /-- The modes for the next step, innermost first. -/
  modes : List Mode
deriving DecidableEq, Repr

/-- The step whose token is a given cut. -/
def Found.ofCut (kind : Kind) (modes : List Mode) (cut : Cut) : Found :=
  ⟨kind, cut.taken, cut.rest, modes⟩

/-- Continue a literal.  An opener of code at the very front is a token of its own. -/
def resume (d : Delimiter) (outer : List Mode) (cs : List Char) : Found :=
  let cut := literalText d cs
  match cut.stop with
  | .opener text code =>
    if cut.taken.isEmpty then ⟨.interpolation, text.toList, code, .code d 0 :: outer⟩
    else .ofCut .stringLiteral (.literal d :: outer) cut.toCut
  | _ => .ofCut .stringLiteral outer cut.toCut

/-- Start a literal whose opening has been read. -/
def openLiteral (d : Delimiter) (outer : List Mode) (cs : List Char) : Found :=
  let cut := (literalText d cs).prepend d.opening.toList
  match cut.stop with
  | .opener _ _ => .ofCut .stringLiteral (.literal d :: outer) cut.toCut
  | _ => .ofCut .stringLiteral outer cut.toCut

/-- A single character that starts nothing longer.  Braces of code inside a literal are
counted, and the one that closes it returns to the literal. -/
def symbol (modes : List Mode) (c : Char) (cs : List Char) : Found :=
  if !punctuation.contains c then ⟨.operator, [c], cs, modes⟩
  else
    match modes with
    | .code d depth :: outer =>
      if c == '\x7b' then ⟨.punctuation, [c], cs, .code d (depth + 1) :: outer⟩
      else if c == '\x7d' then
        match depth with
        | 0 => ⟨.interpolation, [c], cs, .literal d :: outer⟩
        | depth + 1 => ⟨.punctuation, [c], cs, .code d depth :: outer⟩
      else ⟨.punctuation, [c], cs, modes⟩
    | _ => ⟨.punctuation, [c], cs, modes⟩

/-- The literal that opens at the front of a text, with what follows its opening. -/
def literalAt? (delimiters : List Delimiter) (cs : List Char) :
    Option (Delimiter × List Char) :=
  delimiters.findSome? fun d => (after? d.opening cs).map fun r => (d, r)

/-- The listed operator of more than one byte at the front of a text, with the rest. -/
def operatorAt? (operators : List String) (cs : List Char) : Option (String × List Char) :=
  operators.findSome? fun op =>
    if op.utf8ByteSize > 1 then (after? op cs).map fun r => (op, r) else none

/-- The block comment that opens at the front of a text, with what follows its opening. -/
def blockAt? (comments : CommentSyntax) (cs : List Char) :
    Option (BlockComment × List Char) :=
  comments.block.bind fun b => (after? b.opening cs).map fun r => (b, r)

/-- The token of code that starts with `c`. -/
def codeStep (l : Language) (modes : List Mode) (c : Char) (cs : List Char) : Found :=
  if c == '\n' then ⟨.newline, [c], cs, modes⟩
  else if Text.isBlank c then
    .ofCut .whitespace modes ((takeAll (fun x => Text.isBlank x && x != '\n') cs).prepend [c])
  else if l.comments.line.any fun m => (after? m (c :: cs)).isSome then
    .ofCut .lineComment modes ((takeAll (· != '\n') cs).prepend [c])
  else
    match blockAt? l.comments (c :: cs) with
    | some (b, r) =>
      .ofCut .blockComment modes
        ((commentText b l.comments.nested 0 r).prepend b.opening.toList)
    | none =>
      if l.strings.quotedIdentifier == some c then
        .ofCut .identifier modes ((quotedText c cs).prepend [c])
      else
        match literalAt? l.strings.delimiters (c :: cs) with
        | some (d, r) => openLiteral d modes r
        | none =>
          if l.isIdentifierStart c then
            let cut := (takeAll l.isIdentifierChar cs).prepend [c]
            let kind := if l.isKeyword (String.ofList cut.taken) then .keyword else .identifier
            .ofCut kind modes cut
          else if Text.isAsciiDigit c then
            .ofCut .number modes ((numberText cs).prepend [c])
          else
            match operatorAt? l.operators (c :: cs) with
            | some (op, r) => ⟨.operator, op.toList, r, modes⟩
            | none => symbol modes c cs

/-- The next token, in the mode on top of the stack. -/
def step (l : Language) (modes : List Mode) (c : Char) (cs : List Char) : Found :=
  match modes with
  | .literal d :: outer => resume d outer (c :: cs)
  | _ => codeStep l modes c cs

/-! ## Nothing is lost -/

/-- A run takes a front of the text. -/
theorem takeAll_append (p : Char → Bool) (cs : List Char) :
    (takeAll p cs).taken ++ (takeAll p cs).rest = cs :=
  List.takeWhile_append_dropWhile

theorem commentText_append (block : BlockComment) (nested : Bool) (outer : Nat)
    (cs : List Char) :
    (commentText block nested outer cs).taken ++ (commentText block nested outer cs).rest
      = cs := by
  fun_induction commentText block nested outer cs with
  | case1 => rfl
  | case2 c cs' r h => exact (after?_eq_some h).1.symm
  | case3 c cs' r h outer ih =>
    rw [(after?_eq_some h).1]
    simp only [Cut.prepend, List.append_assoc, ih]
  | case4 outer c cs' h r hopen ih =>
    split at hopen
    · rw [(after?_eq_some hopen).1]
      simp only [Cut.prepend, List.append_assoc, ih]
    · exact absurd hopen (by simp)
  | case5 outer c cs' h hopen ih => simp [Cut.prepend, ih]

theorem literalText_append (d : Delimiter) (cs : List Char) :
    (literalText d cs).taken ++ (literalText d cs).rest = cs := by
  fun_induction literalText d cs with
  | case1 => rfl
  | case2 => rfl
  | case3 c h e cs' ih => simp [LiteralCut.prepend, ih]
  | case4 c cs h r hr => exact (after?_eq_some hr).1.symm
  | case5 => rfl
  | case6 => rfl
  | case7 c cs _ _ _ _ ih => simp [LiteralCut.prepend, ih]

theorem opener?_eq_some {d : Delimiter} {cs code : List Char} {text : String}
    (h : opener? d cs = some (text, code)) :
    d.interpolation = some text ∧ cs = text.toList ++ code ∧ 0 < text.length := by
  unfold opener? at h
  obtain ⟨t, hd, ht⟩ := Option.bind_eq_some_iff.mp h
  obtain ⟨r, hr, he⟩ := Option.map_eq_some_iff.mp ht
  cases he
  exact ⟨hd, after?_eq_some hr⟩

/-- Before an opener of code, the rest of a literal is the opener and the code. -/
theorem literalText_opener {d : Delimiter} {cs code : List Char} {text : String}
    (h : (literalText d cs).stop = .opener text code) :
    (literalText d cs).rest = text.toList ++ code ∧ 0 < text.length := by
  fun_induction literalText d cs with
  | case1 => simp at h
  | case2 => simp at h
  | case3 c hc e cs' ih => exact ih h
  | case4 => simp at h
  | case5 c cs _ _ t r hr =>
    cases h
    exact (opener?_eq_some hr).2
  | case6 => simp at h
  | case7 c cs _ _ _ _ ih => exact ih h

theorem numberText_append (cs : List Char) :
    (numberText cs).taken ++ (numberText cs).rest = cs := by
  fun_induction numberText cs with
  | case1 => rfl
  | case2 c cs h ih => simp [Cut.prepend, ih]
  | case3 c cs h h' ih => simp [Cut.prepend, ih]
  | case4 => rfl

theorem quotedText_append (quote : Char) (cs : List Char) :
    (quotedText quote cs).taken ++ (quotedText quote cs).rest = cs := by
  have h := takeAll_append (fun c => c != quote && c != '\n') cs
  unfold quotedText
  dsimp only
  split
  · rename_i c r hr
    rw [hr] at h
    split
    · simpa using h
    · rw [hr]
      exact h
  · exact h

theorem resume_append (d : Delimiter) (outer : List Mode) (cs : List Char) :
    (resume d outer cs).taken ++ (resume d outer cs).rest = cs := by
  have h := literalText_append d cs
  unfold resume
  dsimp only
  split
  · rename_i text code hstop
    split
    · rename_i hnil
      rw [List.isEmpty_iff.mp hnil, (literalText_opener hstop).1] at h
      exact h
    · exact h
  · exact h

theorem openLiteral_append (d : Delimiter) (outer : List Mode) (cs : List Char) :
    (openLiteral d outer cs).taken ++ (openLiteral d outer cs).rest
      = d.opening.toList ++ cs := by
  have h := literalText_append d cs
  unfold openLiteral
  dsimp only
  split <;> simp [Found.ofCut, LiteralCut.prepend, h]

theorem symbol_append (modes : List Mode) (c : Char) (cs : List Char) :
    (symbol modes c cs).taken ++ (symbol modes c cs).rest = c :: cs := by
  unfold symbol
  repeat' split
  all_goals rfl

/-- A literal that opens has a delimiter of the list in front. -/
theorem literalAt?_eq_some {ds : List Delimiter} {cs r : List Char} {d : Delimiter}
    (h : literalAt? ds cs = some (d, r)) :
    d ∈ ds ∧ cs = d.opening.toList ++ r ∧ 0 < d.opening.length := by
  obtain ⟨d', hmem, hd⟩ := List.exists_of_findSome?_eq_some h
  obtain ⟨r', hr, he⟩ := Option.map_eq_some_iff.mp hd
  cases he
  exact ⟨hmem, after?_eq_some hr⟩

theorem operatorAt?_eq_some {ops : List String} {cs r : List Char} {op : String}
    (h : operatorAt? ops cs = some (op, r)) :
    op ∈ ops ∧ cs = op.toList ++ r ∧ 0 < op.length := by
  obtain ⟨op', hmem, hop⟩ := List.exists_of_findSome?_eq_some h
  split at hop
  · obtain ⟨r', hr, he⟩ := Option.map_eq_some_iff.mp hop
    cases he
    exact ⟨hmem, after?_eq_some hr⟩
  · exact absurd hop (by simp)

theorem blockAt?_eq_some {comments : CommentSyntax} {cs r : List Char} {b : BlockComment}
    (h : blockAt? comments cs = some (b, r)) :
    comments.block = some b ∧ cs = b.opening.toList ++ r ∧ 0 < b.opening.length := by
  obtain ⟨b', hb, hr⟩ := Option.bind_eq_some_iff.mp h
  obtain ⟨r', hr', he⟩ := Option.map_eq_some_iff.mp hr
  cases he
  exact ⟨hb, after?_eq_some hr'⟩

/-- A step through code takes a front of the text. -/
theorem codeStep_append (l : Language) (modes : List Mode) (c : Char) (cs : List Char) :
    (codeStep l modes c cs).taken ++ (codeStep l modes c cs).rest = c :: cs := by
  unfold codeStep
  split
  · rfl
  split
  · simp [Found.ofCut, Cut.prepend, takeAll_append]
  split
  · simp [Found.ofCut, Cut.prepend, takeAll_append]
  split
  · rename_i b r h
    simp [Found.ofCut, Cut.prepend, commentText_append, (blockAt?_eq_some h).2.1]
  split
  · simp [Found.ofCut, Cut.prepend, quotedText_append]
  split
  · rename_i d r h
    rw [openLiteral_append, (literalAt?_eq_some h).2.1]
  split
  · simp [Found.ofCut, Cut.prepend, takeAll_append]
  split
  · simp [Found.ofCut, Cut.prepend, numberText_append]
  split
  · rename_i op r h
    rw [(operatorAt?_eq_some h).2.1]
  · exact symbol_append modes c cs

/-- A step cuts the text in two. -/
theorem step_append (l : Language) (modes : List Mode) (c : Char) (cs : List Char) :
    (step l modes c cs).taken ++ (step l modes c cs).rest = c :: cs := by
  unfold step
  split
  · exact resume_append _ _ _
  · exact codeStep_append l modes c cs

/-! ## Progress -/

/-- What is left to be done, from the rest and the modes. -/
def weight (rest : List Char) (modes : List Mode) : Nat := 2 * rest.length + modes.length

/-- A step that takes a character and opens at most one mode makes the weight smaller. -/
theorem weight_lt {taken rest cs : List Char} {modes modes' : List Mode}
    (happ : taken ++ rest = cs) (hne : taken ≠ [])
    (hmodes : modes'.length ≤ modes.length + 1) : weight rest modes' < weight cs modes := by
  have := List.length_pos_iff.mpr hne
  subst happ
  simp only [weight, List.length_append]
  omega

/-- Going on in a literal takes a character or leaves the literal. -/
theorem resume_weight (d : Delimiter) (outer : List Mode) (cs : List Char) :
    weight (resume d outer cs).rest (resume d outer cs).modes
      < weight cs (.literal d :: outer) := by
  have happ := literalText_append d cs
  unfold resume
  dsimp only
  split
  · rename_i text code hstop
    obtain ⟨hrest, hpos⟩ := literalText_opener hstop
    split
    · rename_i hnil
      rw [List.isEmpty_iff.mp hnil, hrest] at happ
      refine weight_lt happ (fun h => ?_) (by simp)
      rw [← String.length_toList, h] at hpos
      exact absurd hpos (by simp)
    · rename_i hne
      exact weight_lt happ (by simpa using hne) (by simp [Found.ofCut])
  · have hlen := congrArg List.length happ
    simp only [weight, Found.ofCut, List.length_cons, List.length_append] at hlen ⊢
    omega

theorem symbol_modes_length (modes : List Mode) (c : Char) (cs : List Char) :
    (symbol modes c cs).modes.length ≤ modes.length := by
  unfold symbol
  repeat' split
  all_goals simp

theorem openLiteral_modes_length (d : Delimiter) (outer : List Mode) (cs : List Char) :
    (openLiteral d outer cs).modes.length ≤ outer.length + 1 := by
  unfold openLiteral
  dsimp only
  split <;> simp [Found.ofCut]

/-- A step through code opens at most one mode. -/
theorem codeStep_modes_length (l : Language) (modes : List Mode) (c : Char)
    (cs : List Char) : (codeStep l modes c cs).modes.length ≤ modes.length + 1 := by
  unfold codeStep
  repeat' split
  all_goals try simp [Found.ofCut]
  · exact openLiteral_modes_length _ _ _
  · exact Nat.le_succ_of_le (symbol_modes_length modes c cs)

theorem symbol_taken_ne_nil (modes : List Mode) (c : Char) (cs : List Char) :
    (symbol modes c cs).taken ≠ [] := by
  unfold symbol
  repeat' split
  all_goals simp

theorem toList_ne_nil_of_length_pos {s : String} (h : 0 < s.length) : s.toList ≠ [] := by
  intro hnil
  rw [← String.length_toList, hnil] at h
  exact absurd h (by simp)

/-- A token of code has a character. -/
theorem codeStep_taken_ne_nil (l : Language) (modes : List Mode) (c : Char) (cs : List Char) :
    (codeStep l modes c cs).taken ≠ [] := by
  unfold codeStep
  split
  · simp
  split
  · simp [Found.ofCut, Cut.prepend]
  split
  · simp [Found.ofCut, Cut.prepend]
  split
  · rename_i b r h
    have := toList_ne_nil_of_length_pos (blockAt?_eq_some h).2.2
    simp [Found.ofCut, Cut.prepend, this]
  split
  · simp [Found.ofCut, Cut.prepend]
  split
  · rename_i d r h
    have := toList_ne_nil_of_length_pos (literalAt?_eq_some h).2.2
    unfold openLiteral
    dsimp only
    split <;> simp [Found.ofCut, LiteralCut.prepend, this]
  split
  · simp [Found.ofCut, Cut.prepend]
  split
  · simp [Found.ofCut, Cut.prepend]
  split
  · rename_i op r h
    exact toList_ne_nil_of_length_pos (operatorAt?_eq_some h).2.2
  · exact symbol_taken_ne_nil modes c cs

/-- Each step makes the weight smaller. -/
theorem step_weight (l : Language) (modes : List Mode) (c : Char) (cs : List Char) :
    weight (step l modes c cs).rest (step l modes c cs).modes < weight (c :: cs) modes := by
  unfold step
  split
  · exact resume_weight _ _ _
  · exact weight_lt (codeStep_append l modes c cs) (codeStep_taken_ne_nil l modes c cs)
      (codeStep_modes_length l modes c cs)

end Scan

/-! ## The tokens of a source -/

/-- The tokens of a text that starts at a byte offset in the given modes. -/
def scanFrom (l : Language) (modes : List Scan.Mode) (start : Nat) (cs : List Char) :
    List Token :=
  match cs with
  | [] => []
  | c :: cs =>
    let found := Scan.step l modes c cs
    let text := String.ofList found.taken
    let stop := start + text.utf8ByteSize
    ⟨found.kind, text, start, stop⟩ :: scanFrom l found.modes stop found.rest
termination_by Scan.weight cs modes
decreasing_by exact Scan.step_weight l modes c cs

/-- The tokens of a source. -/
def scan (l : Language) (source : String) : List Token := scanFrom l [] 0 source.toList

end Cyclomatic
