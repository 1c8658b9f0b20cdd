import Cyclomatic.Code.View
import Cyclomatic.Proofs.Sorting
import Cyclomatic.Registry

/-!
# The built-in tables

A language found by name in the built-in registry is one of five canonical tables
(`Registry.builtin_cases`).  Canonical form leaves the rules of a table as they are and sorts
its operators and delimiters.  The sorted lists of the built-in tables are stated with insertion
sort, which evaluates by structural recursion.

Facts about one source are evaluated from its characters (`Code.ofSource_eq_ofChars`).  The text
itself is an array of bytes, and decoding it takes longer than all that follows.
-/

namespace Cyclomatic

/-! ## Sorted lists -/

theorem wordSet_eq (words : List String) :
    wordSet words = (words.insertionSort (· ≤ ·)).eraseReps := by
  rw [wordSet, ← List.mergeSort_eq_insertionSort]

/-- The order of operators as a relation. -/
def OperatorLe (a b : String) : Prop := operatorLe a b = true

instance : DecidableRel OperatorLe := fun a b => inferInstanceAs (Decidable (operatorLe a b = true))

theorem operatorLe_iff {a b : String} :
    OperatorLe a b ↔
      b.utf8ByteSize < a.utf8ByteSize ∨ (a.utf8ByteSize = b.utf8ByteSize ∧ a ≤ b) := by
  simp [OperatorLe, operatorLe]

instance : Std.Total OperatorLe where
  total a b := by
    rw [operatorLe_iff, operatorLe_iff]
    rcases Nat.lt_trichotomy a.utf8ByteSize b.utf8ByteSize with h | h | h
    · exact Or.inr (Or.inl h)
    · rcases Std.Total.total (r := (· ≤ · : String → String → Prop)) a b with hle | hle
      · exact Or.inl (Or.inr ⟨h, hle⟩)
      · exact Or.inr (Or.inr ⟨h.symm, hle⟩)
    · exact Or.inl (Or.inl h)

instance : IsTrans String OperatorLe where
  trans a b c hab hbc := by
    rw [operatorLe_iff] at *
    rcases hab with hab | ⟨hab, hle⟩ <;> rcases hbc with hbc | ⟨hbc, hle'⟩
    · exact Or.inl (Nat.lt_trans hbc hab)
    · exact Or.inl (by omega)
    · exact Or.inl (by omega)
    · exact Or.inr ⟨hab.trans hbc, String.le_trans hle hle'⟩

instance : Std.Antisymm OperatorLe where
  antisymm a b hab hba := by
    rw [operatorLe_iff] at *
    rcases hab with hab | ⟨heq, hle⟩ <;> rcases hba with hba | ⟨heq', hle'⟩
    · omega
    · omega
    · omega
    · exact String.le_antisymm hle hle'

theorem canonicalOperators_eq (ops : List String) :
    canonicalOperators ops = ((ops.filter (!·.isEmpty)).insertionSort OperatorLe).eraseReps := by
  have hle : operatorLe = fun a b => decide (OperatorLe a b) := by
    funext a b
    exact (Bool.decide_eq_true ..).symm
  rw [canonicalOperators, ← List.mergeSort_eq_insertionSort, hle]

/-- Delimiters that already stand longest first stay as they are. -/
theorem canonicalDelimiters_eq {ds : List Delimiter}
    (h : ds.Pairwise fun a b => b.opening.utf8ByteSize ≤ a.opening.utf8ByteSize) :
    canonicalDelimiters ds = ds :=
  List.mergeSort_of_pairwise (h.imp fun hab => by simpa using hab)

theorem mem_canonicalDelimiters {d : Delimiter} {ds : List Delimiter} :
    d ∈ canonicalDelimiters ds ↔ d ∈ ds :=
  List.mem_mergeSort

theorem mem_canonicalOperators {o : String} {ops : List String} :
    o ∈ canonicalOperators ops ↔ o ∈ ops ∧ o ≠ "" := by
  rw [canonicalOperators, mem_eraseReps, List.mem_mergeSort, List.mem_filter, Bool.not_eq_true',
    Bool.eq_false_iff, ne_eq, String.isEmpty_iff]

/-! ## The tables -/

theorem Registry.mem_of_lookup? {r : Registry} {name : String} {l : Language}
    (h : r.lookup? name = some l) : l ∈ r.tables :=
  List.mem_of_find?_eq_some h

theorem Registry.builtin_tables : Registry.builtin.tables =
    [Language.JavaScript.typedTable.canonical, Language.Kotlin.table.canonical,
      Language.JavaScript.table.canonical, Language.Java.table.canonical,
      Language.Go.table.canonical] := rfl

/-- A built-in language is one of five. -/
theorem Registry.builtin_cases {name : String} {l : Language}
    (h : Registry.builtin.lookup? name = some l) :
    l = Language.JavaScript.typedTable.canonical ∨ l = Language.Kotlin.table.canonical ∨
      l = Language.JavaScript.table.canonical ∨ l = Language.Java.table.canonical ∨
      l = Language.Go.table.canonical := by
  have hmem := Registry.mem_of_lookup? h
  rw [Registry.builtin_tables] at hmem
  simpa using hmem

namespace Language

/-- A table whose delimiters stand longest first, with its other lists in order. -/
theorem canonical_eq {l : Language} {words keywords operators extensions : List String}
    (hid : Text.lower (Text.trim l.id) = l.id) (hwords : l.keywords = wordSet words)
    (hkeywords : (words.insertionSort (· ≤ ·)).eraseReps = keywords)
    (hoperators : ((l.operators.filter (!·.isEmpty)).insertionSort OperatorLe).eraseReps =
      operators)
    (hdelimiters : l.strings.delimiters.Pairwise fun a b =>
      b.opening.utf8ByteSize ≤ a.opening.utf8ByteSize)
    (hextensions : l.extensions.map canonicalExtension = extensions) :
    l.canonical =
      { l with keywords := keywords, operators := operators, extensions := extensions } := by
  rw [canonical, canonicalDelimiters_eq hdelimiters, canonicalOperators_eq, hid, hwords, wordSet_eq,
    hkeywords, hoperators, hextensions]

/-- The table of Java with its lists in order. -/
theorem Java.canonical_eq : Java.table.canonical =
    { Java.table with
      keywords := [
        "abstract", "assert", "boolean", "break", "byte", "case", "catch", "char", "class",
        "const", "continue", "default", "do", "double", "else", "enum", "extends", "false",
        "final", "finally", "float", "for", "goto", "if", "implements", "import", "instanceof",
        "int", "interface", "long", "native", "new", "null", "package", "private", "protected",
        "public", "return", "short", "static", "strictfp", "super", "switch", "synchronized",
        "this", "throw", "throws", "transient", "true", "try", "void", "volatile", "while"]
      operators := [
        "...", "<<=", "!=", "%=", "&&", "&=", "*=", "++", "+=", "--", "-=", "->", "/=", "::",
        "<<", "<=", "==", ">=", "^=", "|=", "||"] } :=
  Language.canonical_eq (by decide +kernel) rfl (by decide +kernel) (by decide +kernel)
    (by decide) (by decide +kernel)

/-- The table of JavaScript with its lists in order. -/
theorem JavaScript.canonical_eq : JavaScript.table.canonical =
    { JavaScript.table with
      keywords := [
        "async", "await", "break", "case", "catch", "class", "const", "continue", "debugger",
        "default", "delete", "do", "else", "export", "extends", "false", "finally", "for",
        "function", "if", "import", "in", "instanceof", "let", "new", "null", "return", "static",
        "super", "switch", "this", "throw", "true", "try", "typeof", "var", "void", "while",
        "with", "yield"]
      operators := [
        "!==", "&&=", "**=", "...", "===", "??=", "||=", "!=", "%=", "&&", "**", "*=", "++", "+=",
        "--", "-=", "/=", "<=", "==", "=>", ">=", "?.", "??", "||"] } :=
  Language.canonical_eq (by decide +kernel) rfl (by decide +kernel) (by decide +kernel)
    (by decide) (by decide +kernel)

/-- The table of Kotlin with its lists in order. -/
theorem Kotlin.canonical_eq : Kotlin.table.canonical =
    { Kotlin.table with
      keywords := [
        "as", "break", "catch", "class", "continue", "do", "else", "false", "finally", "for",
        "fun", "if", "import", "in", "interface", "is", "null", "object", "package", "return",
        "super", "this", "throw", "true", "try", "typealias", "typeof", "val", "var", "when",
        "while"]
      operators := [
        "!==", "..<", "===", "!!", "!=", "%=", "&&", "*=", "++", "+=", "--", "-=", "->", "..",
        "/=", "::", "<=", "==", ">=", "?.", "?:", "||"] } :=
  Language.canonical_eq (by decide +kernel) rfl (by decide +kernel) (by decide +kernel)
    (by decide) (by decide +kernel)

end Language

/-! ## Sources by their characters -/

/-- The code of a source given by its characters. -/
def Code.ofChars (l : Language) (cs : List Char) : Code :=
  let found := (Cyclomatic.lexemes (scanFrom l [] 0 cs)).toArray
  { bytes := (String.ofList cs).utf8ByteSize
    source := String.ofList cs
    lexemes := found
    partners := partnerTable found.size (bracketPairs (found.toList.map (·.toToken)))
    starts := 0 :: lineStartsFrom 0 cs }

theorem Code.ofSource_eq_ofChars (l : Language) (source : String) {cs : List Char}
    (h : source = String.ofList cs) : Code.ofSource l source = Code.ofChars l cs := by
  subst h
  simp only [Code.ofSource, Code.ofChars, scan, lineStarts, String.toList_ofList]

theorem toList_eq_chars (s : String) {cs : List Char} (h : s = String.ofList cs) :
    s.toList = cs := by
  rw [h, String.toList_ofList]

/-- The characters of a text in two pieces. -/
theorem append_eq_ofList {s t : String} {cs ds : List Char} (hs : s = String.ofList cs)
    (ht : t = String.ofList ds) : s ++ t = String.ofList (cs ++ ds) := by
  rw [hs, ht, String.ofList_append]

end Cyclomatic
