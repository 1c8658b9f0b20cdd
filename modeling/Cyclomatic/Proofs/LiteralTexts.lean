import Cyclomatic.Proofs.CanonicalTables
import Cyclomatic.Proofs.Concatenation

/-!
# Where literals end

The text of a literal goes on to the first mark that no escape covers: its closing text, an opener
of code, the line feed of a literal of one line, or the end of the input.  `Delimiter.Runs` says so
without the scanner, and each cut of the scanner is such a run (`Scan.runs_literalText`).

A text between double quotes has a backslash before each character that could be a mark or an
escape.  Then no mark stands inside it, and it is scanned as one literal (`scan_quotation`).
-/

namespace Cyclomatic

/-! ## Marks and runs -/

namespace Delimiter

/-- An escape stands at the front of a text. -/
def EscapesAt (d : Delimiter) (cs : List Char) : Prop := ∃ c ∈ d.escape, cs.head? = some c

/-- An opener of code stands at the front of a text. -/
def OpensAt (d : Delimiter) (cs : List Char) : Prop := ∃ text ∈ d.interpolation, text.toList <+: cs

/-- The line feed that ends a literal of one line stands at the front of a text. -/
def BreaksAt (d : Delimiter) (cs : List Char) : Prop :=
  d.multiline = false ∧ cs.head? = some '\n'

/-- A mark that ends the text of a literal stands at the front of a text. -/
def StopsAt (d : Delimiter) (cs : List Char) : Prop :=
  d.closing.toList <+: cs ∨ d.OpensAt cs ∨ d.BreaksAt cs

/-- The characters are text of a literal before a rest.  An escape takes the next character along,
and no mark stands at any other character. -/
inductive Holds (d : Delimiter) : List Char → List Char → Prop where
  | nil {rest : List Char} : Holds d [] rest
  | escaped {c e : Char} {inside rest : List Char} :
      c ∈ d.escape → Holds d inside rest → Holds d (c :: e :: inside) rest
  | dangling {c : Char} : c ∈ d.escape → Holds d [c] []
  | plain {c : Char} {inside rest : List Char} :
      c ∉ d.escape → ¬ d.StopsAt (c :: (inside ++ rest)) → Holds d inside rest →
      Holds d (c :: inside) rest

/-- A piece of a literal runs from its inside to a mark, with a rest behind it. -/
inductive Runs (d : Delimiter) : List Char → List Char → Prop where
  /-- Past the closing text. -/
  | closed {inside rest : List Char} :
      d.Holds inside (d.closing.toList ++ rest) → ¬ d.EscapesAt (d.closing.toList ++ rest) →
      Runs d (inside ++ d.closing.toList) rest
  /-- Up to an opener of code. -/
  | opener {inside rest : List Char} :
      d.Holds inside rest → ¬ d.EscapesAt rest → ¬ d.closing.toList <+: rest → d.OpensAt rest →
      Runs d inside rest
  /-- Up to the line feed, if the literal has one line only. -/
  | lineBreak {inside rest : List Char} :
      d.Holds inside rest → ¬ d.EscapesAt rest → ¬ d.closing.toList <+: rest →
      ¬ d.OpensAt rest → d.BreaksAt rest → Runs d inside rest
  /-- Up to the end of the input. -/
  | inputEnd {inside : List Char} : d.Holds inside [] → Runs d inside []

/-- Characters in front of a run that are text of the literal make the run longer. -/
theorem Runs.prepend {d : Delimiter} {front taken rest : List Char} (h : d.Runs taken rest)
    (hfront : ∀ inside behind, inside ++ behind = taken ++ rest → d.Holds inside behind →
      d.Holds (front ++ inside) behind) : d.Runs (front ++ taken) rest := by
  cases h with
  | closed hinside hescape =>
    rw [← List.append_assoc]
    exact .closed (hfront _ _ (by rw [List.append_assoc]) hinside) hescape
  | opener hinside hescape hclosing hopens =>
    exact .opener (hfront _ _ rfl hinside) hescape hclosing hopens
  | lineBreak hinside hescape hclosing hopens hbreaks =>
    exact .lineBreak (hfront _ _ rfl hinside) hescape hclosing hopens hbreaks
  | inputEnd hinside => exact .inputEnd (hfront _ _ rfl hinside)

/-- The delimiter has no empty marker, and its openers of code end with a brace. -/
structure Sound (d : Delimiter) : Prop where
  opening : 0 < d.opening.length
  closing : 0 < d.closing.length
  interpolation : ∀ text ∈ d.interpolation, Text.endsIn text "\x7b" = true

theorem length_pos_of_isEmpty {s : String} (h : s.isEmpty = false) : 0 < s.length := by
  rw [Nat.pos_iff_ne_zero, ne_eq, String.length_eq_zero_iff, ← String.isEmpty_iff]
  simp [h]

theorem sound_of_fault? {d : Delimiter} (h : d.fault? = none) : d.Sound := by
  unfold fault? at h
  split at h
  · cases h
  rename_i hempty
  split at h
  · cases h
  rename_i hbrace
  simp only [Bool.or_eq_true, not_or, Bool.not_eq_true] at hempty
  refine ⟨length_pos_of_isEmpty hempty.1, length_pos_of_isEmpty hempty.2, fun text ht => ?_⟩
  rw [Option.mem_def] at ht
  simpa [ht] using hbrace

theorem Sound.opener_ne_brace {d : Delimiter} (hd : d.Sound) {text : String}
    (ht : text ∈ d.interpolation) : text ≠ "\x7d" := by
  rintro rfl
  exact absurd (hd.interpolation _ ht) (by decide)

theorem Sound.opener_length {d : Delimiter} (hd : d.Sound) {text : String}
    (ht : text ∈ d.interpolation) : 0 < text.length := by
  apply length_pos_of_isEmpty
  rw [Bool.eq_false_iff, ne_eq, String.isEmpty_iff]
  rintro rfl
  exact absurd (hd.interpolation _ ht) (by decide)

end Delimiter

namespace Scan

/-- A marker that is not empty is found where it stands. -/
theorem after?_eq_none_iff {m : String} (hm : 0 < m.length) {cs : List Char} :
    after? m cs = none ↔ ¬ m.toList <+: cs := by
  constructor
  · rintro h ⟨r, rfl⟩
    rw [after?_append hm] at h
    cases h
  · intro h
    cases hfound : after? m cs with
    | none => rfl
    | some r => exact absurd ⟨r, (after?_eq_some hfound).1.symm⟩ h

variable {d : Delimiter} {c : Char} {cs : List Char}

theorem opener?_eq_none_iff (hd : d.Sound) : opener? d cs = none ↔ ¬ d.OpensAt cs := by
  unfold opener? Delimiter.OpensAt
  cases ht : d.interpolation with
  | none => simp
  | some text =>
    rw [Option.bind_some, Option.map_eq_none_iff, after?_eq_none_iff (hd.opener_length ht)]
    simp

theorem opensAt_of_opener? {found : String × List Char} (h : opener? d cs = some found) :
    d.OpensAt cs := by
  obtain ⟨ht, hcs, -⟩ := opener?_eq_some h
  exact ⟨found.1, ht, found.2, hcs.symm⟩

theorem escapesAt_cons_iff : d.EscapesAt (c :: cs) ↔ c ∈ d.escape := by
  simp [Delimiter.EscapesAt]

theorem escape_eq_iff : (d.escape == some c) = true ↔ c ∈ d.escape := by
  rw [beq_iff_eq, Option.mem_def]

/-- A cut of the scanner runs from the inside of a literal to a mark. -/
theorem runs_literalText (hd : d.Sound) (cs : List Char) :
    d.Runs (literalText d cs).taken (literalText d cs).rest := by
  fun_induction literalText d cs with
  | case1 => exact .inputEnd .nil
  | case2 c hc => exact .inputEnd (.dangling (escape_eq_iff.mp hc))
  | case3 c hc e cs ih =>
    exact ih.prepend fun inside rest _ hinside => .escaped (escape_eq_iff.mp hc) hinside
  | case4 c cs hc r hclose =>
    obtain ⟨hcs, -⟩ := after?_eq_some hclose
    refine .closed .nil ?_
    rw [← hcs, escapesAt_cons_iff]
    exact mt escape_eq_iff.mpr hc
  | case5 c cs hc hclose text code hopen =>
    refine .opener .nil ?_ ((after?_eq_none_iff hd.closing).mp hclose) (opensAt_of_opener? hopen)
    exact mt escapesAt_cons_iff.mp (mt escape_eq_iff.mpr hc)
  | case6 c cs hc hclose hopen hbreak =>
    simp only [Bool.and_eq_true, beq_iff_eq, Bool.not_eq_true'] at hbreak
    refine .lineBreak .nil ?_ ((after?_eq_none_iff hd.closing).mp hclose)
      ((opener?_eq_none_iff hd).mp hopen) ⟨hbreak.2, by rw [hbreak.1]; rfl⟩
    exact mt escapesAt_cons_iff.mp (mt escape_eq_iff.mpr hc)
  | case7 c cs hc hclose hopen hbreak ih =>
    refine ih.prepend fun inside rest happ hinside => .plain (mt escape_eq_iff.mpr hc) ?_ hinside
    change ¬ d.StopsAt (c :: (inside ++ rest))
    rw [happ, literalText_append]
    rintro (hstop | hstop | ⟨hmultiline, hfeed⟩)
    · exact (after?_eq_none_iff hd.closing).mp hclose hstop
    · exact (opener?_eq_none_iff hd).mp hopen hstop
    · simp only [List.head?_cons, Option.some.injEq] at hfeed
      simp [hfeed, hmultiline] at hbreak

/-- The scanner goes over text of a literal. -/
theorem literalText_of_holds (hd : d.Sound) {inside rest : List Char} (h : d.Holds inside rest) :
    literalText d (inside ++ rest) = (literalText d rest).prepend inside := by
  induction h with
  | nil => rfl
  | escaped hc _ ih =>
    rw [List.cons_append, List.cons_append, literalText_escape (escape_eq_iff.mpr hc), ih]
    rfl
  | dangling hc =>
    rw [List.append_nil, literalText.eq_def]
    simp only [escape_eq_iff.mpr hc, if_true]
    rfl
  | @plain c inside rest hc hstop _ ih =>
    have hclose : after? d.closing (c :: (inside ++ rest)) = none :=
      (after?_eq_none_iff hd.closing).mpr fun h => hstop (.inl h)
    have hopen : opener? d (c :: (inside ++ rest)) = none :=
      (opener?_eq_none_iff hd).mpr fun h => hstop (.inr (.inl h))
    have hbreak : ¬(c == '\n' && !d.multiline) = true := by
      simp only [Bool.and_eq_true, beq_iff_eq, Bool.not_eq_true']
      rintro ⟨rfl, hmultiline⟩
      exact hstop (.inr (.inr ⟨hmultiline, rfl⟩))
    rw [List.cons_append, literalText_plain (mt escape_eq_iff.mp hc), hclose, hopen]
    simp only [if_neg hbreak, ih]
    rfl

end Scan

/-! ## Quotations -/

/-- The characters that get a backslash between double quotes. -/
def backslashed : List Char := ['"', '\\', '$', '\n']

/-- Characters with a backslash before each one that needs it. -/
def backslash (cs : List Char) : List Char :=
  cs.flatMap fun c => if c ∈ backslashed then ['\\', c] else [c]

/-- A text between double quotes. -/
def quotation (w : String) : String := String.ofList ('"' :: (backslash w.toList ++ ['"']))

/-- The literals between double quotes have backslashes for escapes, and code opens in them with a
dollar sign only. -/
structure Delimiter.Quotes (d : Delimiter) : Prop where
  opening : d.opening = "\""
  closing : d.closing = "\""
  escape : d.escape = some '\\'
  interpolation : ∀ text ∈ d.interpolation, text = "$\x7b"

theorem Delimiter.Quotes.sound {d : Delimiter} (hd : d.Quotes) : d.Sound where
  opening := by
    rw [hd.opening]
    decide
  closing := by
    rw [hd.closing]
    decide
  interpolation text ht := by
    rw [hd.interpolation text ht]
    decide

/-- The language has literals between double quotes.  No comment and no quoted identifier starts
with the quote, and a longer opening starts with three quotes or none. -/
structure Language.Quotes (l : Language) (d : Delimiter) : Prop where
  delimiter : d.Quotes
  line : ∀ m ∈ l.comments.line, m.toList.head? ≠ some '"'
  block : ∀ b ∈ l.comments.block, b.opening.toList.head? ≠ some '"'
  identifier : l.strings.quotedIdentifier ≠ some '"'
  first : ∃ longer shorter, l.strings.delimiters = longer ++ d :: shorter ∧
    ∀ e ∈ longer, e.opening.toList.head? ≠ some '"' ∨ ['"', '"', '"'] <+: e.opening.toList

namespace Scan

variable {l : Language} {d : Delimiter}

/-- No mark stands inside a quotation. -/
theorem holds_backslash (hd : d.Quotes) (w rest : List Char) : d.Holds (backslash w) rest := by
  induction w with
  | nil => exact .nil
  | cons c w ih =>
    rw [backslash, List.flatMap_cons]
    split
    · exact .escaped hd.escape ih
    · rename_i hc
      simp only [backslashed, List.mem_cons, List.not_mem_nil, or_false, not_or] at hc
      obtain ⟨hquote, hescape, hdollar, hfeed⟩ := hc
      refine .plain ?_ ?_ ih
      · rw [hd.escape, Option.mem_some_iff]
        exact Ne.symm hescape
      · rintro (hstop | ⟨text, ht, hstop⟩ | ⟨-, hstop⟩)
        · rw [hd.closing] at hstop
          exact hquote (List.cons_prefix_cons.mp hstop).1.symm
        · rw [hd.interpolation text ht] at hstop
          exact hdollar (List.cons_prefix_cons.mp hstop).1.symm
        · exact hfeed (Option.some.inj hstop)

/-- The literal that a quotation opens ends with it. -/
theorem literalText_backslash (hd : d.Quotes) (w r : List Char) :
    literalText d (backslash w ++ '"' :: r) = ⟨⟨backslash w ++ ['"'], r⟩, .closed⟩ := by
  have hescape : ¬(d.escape == some '"') = true := by
    rw [hd.escape]
    decide
  have hclose : after? d.closing ('"' :: r) = some r := by
    rw [hd.closing]
    exact after?_append (m := "\"") (by decide) r
  rw [literalText_of_holds hd.sound (holds_backslash hd w _),
    literalText_plain hescape, hclose, hd.closing]
  rfl

/-- A marker with another first character stands nowhere before a quote. -/
theorem after?_quote {m : String} (h : m.toList.head? ≠ some '"') (cs : List Char) :
    after? m ('"' :: cs) = none := by
  cases hfound : after? m ('"' :: cs) with
  | none => rfl
  | some r =>
    obtain ⟨happ, hpos⟩ := after?_eq_some hfound
    obtain ⟨c, front, hm⟩ := List.exists_cons_of_ne_nil (toList_ne_nil_of_length_pos hpos)
    rw [hm, List.cons_append] at happ
    rw [hm, (List.cons.inj happ).1.symm] at h
    exact absurd rfl h

/-- A quote opens a literal between double quotes, unless two more follow. -/
theorem literalAt?_quote (hl : l.Quotes d) {cs : List Char} (hcs : ¬ ['"', '"'] <+: cs) :
    literalAt? l.strings.delimiters ('"' :: cs) = some (d, cs) := by
  obtain ⟨longer, shorter, hdelimiters, hlonger⟩ := hl.first
  have hnone : longer.findSome? (fun e => (after? e.opening ('"' :: cs)).map fun r => (e, r)) =
      none := by
    rw [List.findSome?_eq_none_iff]
    intro e he
    rw [Option.map_eq_none_iff]
    rcases hlonger e he with hhead | hquotes
    · exact after?_quote hhead cs
    · cases hfound : after? e.opening ('"' :: cs) with
      | none => rfl
      | some r =>
        have hopening : e.opening.toList <+: '"' :: cs := ⟨r, (after?_eq_some hfound).1.symm⟩
        exact absurd (List.cons_prefix_cons.mp (hquotes.trans hopening)).2 hcs
  rw [literalAt?, hdelimiters, List.findSome?_append, hnone, Option.none_or, List.findSome?_cons,
    hl.delimiter.opening]
  rfl

/-- Three quotes stand at the front of no quotation, unless an empty one is followed by a quote. -/
theorem not_quotes_ahead {w r : List Char} (h : w = [] → r.head? ≠ some '"') :
    ¬ ['"', '"'] <+: backslash w ++ '"' :: r := by
  rintro ⟨rest, hrest⟩
  cases w with
  | nil =>
    obtain rfl : '"' :: rest = r := (List.cons.inj hrest).2
    exact h rfl rfl
  | cons c w =>
    rw [backslash, List.flatMap_cons] at hrest
    split at hrest
    · exact absurd (List.cons.inj hrest).1 (by decide)
    · rename_i hc
      obtain rfl : '"' = c := (List.cons.inj hrest).1
      exact hc (by decide)

/-- A quotation is one token of code. -/
theorem codeStep_quotation (hl : l.Quotes d) (modes : List Mode) {w r : List Char}
    (h : w = [] → r.head? ≠ some '"') :
    codeStep l modes '"' (backslash w ++ '"' :: r) =
      ⟨.stringLiteral, '"' :: (backslash w ++ ['"']), r, modes⟩ := by
  have hline : (l.comments.line.any fun m =>
      (after? m ('"' :: (backslash w ++ '"' :: r))).isSome) = false := by
    rw [List.any_eq_false]
    intro m hm
    rw [after?_quote (hl.line m hm)]
    decide
  have hblock : blockAt? l.comments ('"' :: (backslash w ++ '"' :: r)) = none := by
    rw [blockAt?, Option.bind_eq_none_iff]
    intro b hb
    rw [after?_quote (hl.block b hb), Option.map_none]
  have hstarts : startsToken l '"' (backslash w ++ '"' :: r) = true := by
    rw [startsToken, hline, hblock]
    decide
  rw [codeStep_eq_codeToken hstarts, codeToken, if_neg (by simpa using hl.identifier),
    literalAt?_quote hl (not_quotes_ahead h)]
  simp only [openLiteral, literalText_backslash hl.delimiter, hl.delimiter.opening]
  rfl

end Scan

/-! ## Built-in languages -/

/-- A table with its delimiters in order, one of them for double quotes. -/
theorem quotes_of_delimiters {l : Language} {d : Delimiter} (longer shorter : List Delimiter)
    (hsorted : l.strings.delimiters.Pairwise fun a b =>
      b.opening.utf8ByteSize ≤ a.opening.utf8ByteSize)
    (hdelimiters : l.strings.delimiters = longer ++ d :: shorter)
    (hlonger : ∀ e ∈ longer,
      e.opening.toList.head? ≠ some '"' ∨ ['"', '"', '"'] <+: e.opening.toList)
    (hd : d.Quotes) (hline : ∀ m ∈ l.comments.line, m.toList.head? ≠ some '"')
    (hblock : ∀ b ∈ l.comments.block, b.opening.toList.head? ≠ some '"')
    (hidentifier : l.strings.quotedIdentifier ≠ some '"') : l.canonical.Quotes d where
  delimiter := hd
  line := hline
  block := hblock
  identifier := hidentifier
  first := by
    rw [← canonicalDelimiters_eq hsorted] at hdelimiters
    exact ⟨longer, shorter, hdelimiters, hlonger⟩

theorem quotes_builtin {name : String} {l : Language}
    (h : Registry.builtin.lookup? name = some l) : ∃ d, l.Quotes d := by
  rcases Registry.builtin_cases h with rfl | rfl | rfl | rfl | rfl
  · refine ⟨_, quotes_of_delimiters [.quoted "\x60" (some '\\') true (some "$\x7b")] _ ?_ rfl ?_
      ⟨rfl, rfl, rfl, ?_⟩ ?_ ?_ ?_⟩ <;> decide
  · refine ⟨_, quotes_of_delimiters [.quoted "\"\"\"" none true (some "$\x7b")] _ ?_ rfl ?_
      ⟨rfl, rfl, rfl, ?_⟩ ?_ ?_ ?_⟩ <;> decide
  · refine ⟨_, quotes_of_delimiters [.quoted "\x60" (some '\\') true (some "$\x7b")] _ ?_ rfl ?_
      ⟨rfl, rfl, rfl, ?_⟩ ?_ ?_ ?_⟩ <;> decide
  · refine ⟨_, quotes_of_delimiters [.quoted "\"\"\"" (some '\\') true none] _ ?_ rfl ?_
      ⟨rfl, rfl, rfl, ?_⟩ ?_ ?_ ?_⟩ <;> decide
  · refine ⟨_, quotes_of_delimiters [.quoted "\x60" none true none] _ ?_ rfl ?_
      ⟨rfl, rfl, rfl, ?_⟩ ?_ ?_ ?_⟩ <;> decide

/-- Quoting round-trips through the scanner.  In every built-in language a quotation is one literal,
whatever it holds and whatever follows it, unless it is empty and a quote follows.  What follows is
scanned as a source of its own, at moved offsets, so no other token stands in the quotation. -/
theorem scan_quotation {name : String} {l : Language}
    (h : Registry.builtin.lookup? name = some l) (w r : String)
    (hempty : w = "" → r.toList.head? ≠ some '"') :
    scan l (quotation w ++ r) =
        ⟨.stringLiteral, quotation w, 0, (quotation w).utf8ByteSize⟩ ::
          (scan l r).map (Token.shift (quotation w).utf8ByteSize) ∧
      ∀ t ∈ scan l (quotation w ++ r), t.start < (quotation w).utf8ByteSize →
        t.kind = .stringLiteral ∧ t.text = quotation w := by
  obtain ⟨d, hl⟩ := quotes_builtin h
  have hstep : Scan.step l [] '"' (backslash w.toList ++ '"' :: r.toList) =
      ⟨.stringLiteral, '"' :: (backslash w.toList ++ ['"']), r.toList, []⟩ :=
    Scan.codeStep_quotation hl [] fun hw => hempty (String.toList_eq_nil_iff.mp hw)
  have hscan : scan l (quotation w ++ r) =
      ⟨.stringLiteral, quotation w, 0, (quotation w).utf8ByteSize⟩ ::
        (scan l r).map (Token.shift (quotation w).utf8ByteSize) := by
    have hsource : (quotation w ++ r).toList =
        '"' :: (backslash w.toList ++ '"' :: r.toList) := by
      simp [quotation]
    rw [scan, hsource, Scan.scanFrom_cons, hstep, Nat.zero_add, scan, ← Scan.scanFrom_shift,
      Nat.add_zero]
    rfl
  refine ⟨hscan, fun t ht hstart => ?_⟩
  rw [hscan] at ht
  rcases List.mem_cons.mp ht with rfl | ht
  · exact ⟨rfl, rfl⟩
  · obtain ⟨t', -, rfl⟩ := List.mem_map.mp ht
    exact absurd hstart (Nat.not_lt.mpr (Nat.le_add_right ..))

/-- What looks like the end of a literal, code in it and a comment. -/
def lookalikes : String := "\"\"\" $\x7b f() \x7d // \\"

/-- Lookalikes stay inside their quotation, also before an open literal. -/
theorem scan_quotation_lookalikes :
    ∃ l, Registry.builtin.lookup? "kt" = some l ∧
      quotation lookalikes = "\"\\\"\\\"\\\" \\$\x7b f() \x7d // \\\\\"" ∧
      scan l (quotation lookalikes ++ "\" // x") =
        ⟨.stringLiteral, quotation lookalikes, 0, 24⟩ ::
          (scan l "\" // x").map (Token.shift 24) ∧
      ("" = "" → "+ x".toList.head? ≠ some '"') ∧
      ∀ t ∈ scan l (quotation "" ++ "+ x"), t.start < 2 → t.kind = .stringLiteral := by
  have hkotlin : Registry.builtin.lookup? "kt" = some Language.Kotlin.table.canonical := rfl
  have hplus : "" = "" → "+ x".toList.head? ≠ some '"' := fun _ => by decide
  have hbytes : (quotation lookalikes).utf8ByteSize = 24 := by decide
  have hscan := (scan_quotation hkotlin lookalikes "\" // x" (by decide)).1
  rw [hbytes] at hscan
  refine ⟨_, hkotlin, by decide, hscan, hplus, fun t ht hstart => ?_⟩
  exact ((scan_quotation hkotlin "" "+ x" hplus).2 t ht hstart).1

end Cyclomatic
