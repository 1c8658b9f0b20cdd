import Cyclomatic.Proofs.LiteralTexts

/-!
# Longest matches

The scanner takes the first operator of the table that matches, and the first delimiter.  In
canonical form these are the longest that match, whatever the order of the table was, and of
delimiters with equal openings the one listed first (`scan_longest`).

A match is stated in the source: a text stands at a byte offset before a rest (`StandsBefore`).  The
tokens are related to the steps of the scanner by the places between them (`Scan.placeAfter`).
-/

namespace Cyclomatic

/-! ## Texts in a source -/

/-- A text stands at a byte offset of a source, and a rest follows it. -/
def StandsBefore (source text : String) (offset : Nat) (rest : List Char) : Prop :=
  ∃ front, source.toList = front ++ (text.toList ++ rest) ∧
    (String.ofList front).utf8ByteSize = offset

/-- A text stands at a byte offset of a source. -/
def StandsAt (source text : String) (offset : Nat) : Prop :=
  ∃ rest, StandsBefore source text offset rest

/-- Beginnings of a text with the same number of bytes are the same. -/
theorem eq_of_append_eq {front front' cs cs' : List Char} (h : front ++ cs = front' ++ cs')
    (hbytes : (String.ofList front).utf8ByteSize = (String.ofList front').utf8ByteSize) :
    front = front' ∧ cs = cs' := by
  have hnil : ∀ {xs t : List Char},
      (String.ofList (xs ++ t)).utf8ByteSize = (String.ofList xs).utf8ByteSize → t = [] := by
    intro xs t hsize
    rw [String.ofList_append, String.utf8ByteSize_append, Nat.add_eq_left,
      String.utf8ByteSize_eq_zero_iff] at hsize
    simpa using hsize
  rcases List.append_eq_append_iff.mp h with ⟨t, rfl, rfl⟩ | ⟨t, rfl, rfl⟩
  · obtain rfl := hnil hbytes.symm
    exact ⟨(List.append_nil _).symm, rfl⟩
  · obtain rfl := hnil hbytes
    exact ⟨List.append_nil _, rfl⟩

theorem standsAt_iff {source text : String} {front cs : List Char}
    (h : source.toList = front ++ cs) :
    StandsAt source text (String.ofList front).utf8ByteSize ↔ text.toList <+: cs := by
  constructor
  · rintro ⟨rest, front', hsource, hbytes⟩
    obtain ⟨-, hcs⟩ := eq_of_append_eq (hsource.symm.trans h) hbytes
    exact ⟨rest, hcs⟩
  · rintro ⟨rest, rfl⟩
    exact ⟨rest, front, h, rfl⟩

namespace Scan

/-! ## Places between tokens -/

/-- A place of a scan between two tokens. -/
structure Place where
  /-- The modes in which the scan goes on. -/
  modes : List Mode
  /-- The text ahead. -/
  ahead : List Char
deriving DecidableEq, Repr

/-- The place after some tokens.  It stays at the end of the text. -/
def placeAfter (l : Language) : Nat → Place → Place
  | 0, p => p
  | n + 1, p =>
    match p.ahead with
    | [] => p
    | c :: cs => placeAfter l n ⟨(step l p.modes c cs).modes, (step l p.modes c cs).rest⟩

/-- The place before the first token of a source. -/
def Place.first (source : String) : Place := ⟨[], source.toList⟩

variable {l : Language} {modes : List Mode} {c : Char} {cs : List Char}

/-- Each token is found by the step at the place before it. -/
theorem exists_step_of_getElem? {t : Token} {start n : Nat}
    (h : (scanFrom l modes start cs)[n]? = some t) :
    ∃ front modes' c rest, placeAfter l n ⟨modes, cs⟩ = ⟨modes', c :: rest⟩ ∧
      cs = front ++ c :: rest ∧ t.start = start + (String.ofList front).utf8ByteSize ∧
      t.kind = (step l modes' c rest).kind ∧
      t.text = String.ofList (step l modes' c rest).taken := by
  induction n generalizing modes start cs with
  | zero =>
    cases cs with
    | nil =>
      rw [scanFrom] at h
      cases h
    | cons c cs =>
      rw [scanFrom_cons] at h
      obtain rfl := Option.some.inj h
      exact ⟨[], modes, c, cs, rfl, rfl, rfl, rfl, rfl⟩
  | succ n ih =>
    cases cs with
    | nil =>
      rw [scanFrom] at h
      cases h
    | cons c cs =>
      rw [scanFrom_cons, List.getElem?_cons_succ] at h
      obtain ⟨front, modes', c', rest, hplace, happ, hstart, htoken⟩ := ih h
      refine ⟨(step l modes c cs).taken ++ front, modes', c', rest, hplace, ?_, ?_, htoken⟩
      · rw [List.append_assoc, ← happ, step_append]
      · rw [hstart, String.ofList_append, String.utf8ByteSize_append, Nat.add_assoc]

/-! ## Operators -/

/-- An operator that is passed over does not match, or has one byte at most. -/
theorem size_le_of_passed {o : String} (hmatch : o.toList <+: cs)
    (h : (if o.utf8ByteSize > 1 then (after? o cs).map fun r => (o, r) else none) = none) :
    o.utf8ByteSize ≤ 1 := by
  split at h
  · rename_i hsize
    have hpos : 0 < o.length := by
      refine Delimiter.length_pos_of_isEmpty (Bool.eq_false_iff.mpr fun hempty => ?_)
      rw [String.isEmpty_iff.mp hempty] at hsize
      exact absurd hsize (by decide)
    rw [Option.map_eq_none_iff, after?_eq_none_iff hpos] at h
    exact absurd hmatch h
  · rename_i hsize
    exact Nat.le_of_not_lt hsize

/-- Of operators in order, the first that matches is the longest. -/
theorem operatorAt?_longest {ops : List String} {r : List Char} {o : String}
    (hsorted : ops.Pairwise fun a b => b.utf8ByteSize ≤ a.utf8ByteSize)
    (h : operatorAt? ops cs = some (o, r)) :
    ∀ o' ∈ ops, o'.toList <+: cs → o'.utf8ByteSize ≤ o.utf8ByteSize := by
  obtain ⟨longer, op, shorter, rfl, hop, hlonger⟩ := List.findSome?_eq_some_iff.mp h
  obtain ⟨hsize, hfound⟩ := Option.ite_none_right_eq_some.mp hop
  obtain ⟨r', -, hpair⟩ := Option.map_eq_some_iff.mp hfound
  obtain rfl : op = o := congrArg Prod.fst hpair
  intro o' ho' hmatch
  rcases List.mem_append.mp ho' with hmem | hmem
  · have := size_le_of_passed hmatch (hlonger o' hmem)
    omega
  · rcases List.mem_cons.mp hmem with rfl | hmem
    · exact Nat.le_refl _
    · exact (List.pairwise_cons.mp (List.pairwise_append.mp hsorted).2.1).1 o' hmem

theorem symbol_size_pos (modes : List Mode) (c : Char) (cs : List Char) :
    1 ≤ (String.ofList (symbol modes c cs).taken).utf8ByteSize := by
  rw [(symbol_near modes c cs cs).1, Nat.one_le_iff_ne_zero, ne_eq,
    String.utf8ByteSize_eq_zero_iff]
  simp

/-- An operator or a mark of punctuation is at least as long as each operator that matches. -/
theorem codeStep_longest (hsorted : l.operators.Pairwise fun a b =>
      b.utf8ByteSize ≤ a.utf8ByteSize)
    (h : (codeStep l modes c cs).kind = .operator ∨ (codeStep l modes c cs).kind = .punctuation) :
    ∀ o ∈ l.operators, o.toList <+: c :: cs →
      o.utf8ByteSize ≤ (String.ofList (codeStep l modes c cs).taken).utf8ByteSize := by
  intro o ho hmatch
  rcases codeStep_origin l modes c cs with ⟨-, -, -, hop, hpunct⟩ | ⟨d, r, -, heq⟩ |
      ⟨o', r, hfound, heq⟩ | ⟨hnone, heq⟩
  · rcases h with h | h
    · exact absurd h hop
    · exact absurd h hpunct
  · obtain ⟨modes', hopen, -⟩ := openLiteral_cases d modes r
    rw [heq, hopen] at h
    rcases h with h | h
    · cases h
    · cases h
  · rw [heq, String.ofList_toList]
    exact operatorAt?_longest hsorted hfound o ho hmatch
  · have hsize := size_le_of_passed hmatch (List.findSome?_eq_none_iff.mp hnone o ho)
    rw [heq]
    exact Nat.le_trans hsize (symbol_size_pos modes c cs)

/-! ## Delimiters -/

/-- The delimiter of the literal found stands first of those that match. -/
theorem literalAt?_first {ds : List Delimiter} {d : Delimiter} {r : List Char}
    (hds : ∀ d ∈ ds, d.Sound) (h : literalAt? ds cs = some (d, r)) :
    d.opening.toList <+: cs ∧ ∃ longer shorter, ds = longer ++ d :: shorter ∧
      ∀ e ∈ longer, ¬ e.opening.toList <+: cs := by
  obtain ⟨longer, d', shorter, hsplit, hfound, hlonger⟩ := List.findSome?_eq_some_iff.mp h
  obtain ⟨r', hafter, hpair⟩ := Option.map_eq_some_iff.mp hfound
  obtain rfl : d' = d := congrArg Prod.fst hpair
  refine ⟨⟨r', (after?_eq_some hafter).1.symm⟩, longer, shorter, hsplit, fun e he => ?_⟩
  have hsound := hds e (hsplit ▸ List.mem_append_left _ he)
  rw [← after?_eq_none_iff hsound.opening, ← Option.map_eq_none_iff]
  exact hlonger e he

/-- Of the delimiters of a table, the literal found has the longest opening that matches, and is the
first of those listed with this opening. -/
theorem literalAt?_longest {ds : List Delimiter} {d : Delimiter} {r : List Char}
    (hds : ∀ d ∈ ds, d.Sound) (h : literalAt? (canonicalDelimiters ds) cs = some (d, r)) :
    (∀ e ∈ ds, e.opening.toList <+: cs → e.opening.utf8ByteSize ≤ d.opening.utf8ByteSize) ∧
      ∃ before after, ds = before ++ d :: after ∧ ∀ e ∈ before, e.opening.toList <+: cs →
        e.opening.utf8ByteSize < d.opening.utf8ByteSize := by
  have hsorted := pairwise_canonicalDelimiters ds
  have hstable := filter_canonicalDelimiters ds d.opening.utf8ByteSize
  obtain ⟨hopens, longer, shorter, hcanonical, hpassed⟩ :=
    literalAt?_first (fun e he => hds e (mem_canonicalDelimiters.mp he)) h
  rw [hcanonical] at hsorted hstable
  have hlongest : ∀ e ∈ ds, e.opening.toList <+: cs →
      e.opening.utf8ByteSize ≤ d.opening.utf8ByteSize := by
    intro e he hmatch
    rw [← mem_canonicalDelimiters, hcanonical] at he
    rcases List.mem_append.mp he with he | he
    · exact absurd hmatch (hpassed e he)
    · rcases List.mem_cons.mp he with rfl | he
      · exact Nat.le_refl _
      · exact (List.pairwise_cons.mp (List.pairwise_append.mp hsorted).2.1).1 e he
  refine ⟨hlongest, ?_⟩
  -- Among the delimiters of this length, which the sort leaves in their order, it is the first.
  have hfirst : (ds.filter (·.opening.utf8ByteSize == d.opening.utf8ByteSize)).find?
      (fun e => decide (e.opening.toList <+: cs)) = some d := by
    rw [← hstable, List.filter_append, List.filter_cons_of_pos (by simp),
      List.find?_eq_some_iff_append]
    refine ⟨?_, _, _, rfl, fun e he => ?_⟩
    · exact decide_eq_true hopens
    · simpa using hpassed e (List.mem_of_mem_filter he)
  rw [List.find?_filter, List.find?_eq_some_iff_append] at hfirst
  obtain ⟨-, before, after, hsplit, hbefore⟩ := hfirst
  refine ⟨before, after, hsplit, fun e he hmatch => ?_⟩
  have hle := hlongest e (hsplit ▸ List.mem_append_left _ he) hmatch
  have hne := hbefore e he
  simp only [hmatch, decide_true, and_true, Bool.not_eq_true', beq_iff_eq,
    decide_eq_false_iff_not] at hne
  exact Nat.lt_of_le_of_ne hle hne

/-- A literal found in code is opened by a delimiter and runs from there. -/
theorem literal_of_codeStep (h : (codeStep l modes c cs).kind = .stringLiteral) :
    ∃ d r, literalAt? l.strings.delimiters (c :: cs) = some (d, r) ∧
      (codeStep l modes c cs).taken = d.opening.toList ++ (literalText d r).taken ∧
      (codeStep l modes c cs).rest = (literalText d r).rest := by
  rcases codeStep_origin l modes c cs with ⟨-, hliteral, -⟩ | ⟨d, r, hfound, heq⟩ |
      ⟨o, r, -, heq⟩ | ⟨-, heq⟩
  · exact absurd h hliteral
  · obtain ⟨modes', hopen, -⟩ := openLiteral_cases d modes r
    rw [heq, hopen]
    exact ⟨d, r, hfound, rfl, rfl⟩
  · rw [heq] at h
    cases h
  · rw [heq] at h
    rcases symbol_cases modes c cs with ⟨hkind | hkind, -⟩ | ⟨d, outer, -, hsymbol⟩
    · cases hkind.symm.trans h
    · cases hkind.symm.trans h
    · rw [hsymbol] at h
      cases h

/-- In the text of a literal no operator and no punctuation is found. -/
theorem step_of_operator
    (h : (step l modes c cs).kind = .operator ∨ (step l modes c cs).kind = .punctuation) :
    step l modes c cs = codeStep l modes c cs := by
  by_cases hlit : ∃ d outer, modes = .literal d :: outer
  · obtain ⟨d, outer, rfl⟩ := hlit
    change (resume d outer (c :: cs)).kind = _ ∨ (resume d outer (c :: cs)).kind = _ at h
    rcases resume_cases d outer (c :: cs) with ⟨text, code, -, -, heq⟩ | ⟨_, _, -, -, heq⟩ |
        ⟨-, heq⟩
    all_goals
      rw [heq] at h
      rcases h with h | h
      · cases h
      · cases h
  · exact step_code (fun d outer heq => hlit ⟨d, outer, heq⟩) c cs

end Scan

/-! ## Tables -/

theorem Language.sound_of_validate {l table : Language} (h : l.validate = .ok table) :
    ∀ d ∈ l.strings.delimiters, d.Sound := fun d hd =>
  Delimiter.sound_of_fault?
    ((fault?_eq_none_iff.mp (validate_eq_ok_iff.mp h).1).2.2.2.1 d hd)

theorem operators_of_validate {l table : Language} (h : l.validate = .ok table) :
    table.operators = canonicalOperators l.operators := by
  rw [(Language.validate_eq_ok_iff.mp h).2, Language.canonical]

theorem delimiters_of_validate {l table : Language} (h : l.validate = .ok table) :
    table.strings.delimiters = canonicalDelimiters l.strings.delimiters := by
  rw [(Language.validate_eq_ok_iff.mp h).2, Language.canonical]

/-- The scanner finds longest matches in every table that is accepted, in whatever order and number
the table lists its operators and delimiters.  At an operator or a mark of punctuation no listed
operator with more bytes stands in the source.  A literal found in code is opened and ended by a
delimiter with the longest opening that stands there, and by the first one listed with it. -/
theorem scan_longest {l table : Language} (h : l.validate = .ok table) (source : String) :
    (∀ t ∈ scan table source, t.kind = .operator ∨ t.kind = .punctuation →
        ∀ o ∈ l.operators, StandsAt source o t.start → o.utf8ByteSize ≤ t.text.utf8ByteSize) ∧
      ∀ n t, (scan table source)[n]? = some t → t.kind = .stringLiteral →
        (∀ d outer, (Scan.placeAfter table n (.first source)).modes ≠ .literal d :: outer) →
        ∃ before d after inside rest, l.strings.delimiters = before ++ d :: after ∧
          (∀ e ∈ l.strings.delimiters, StandsAt source e.opening t.start →
            e.opening.utf8ByteSize ≤ d.opening.utf8ByteSize) ∧
          (∀ e ∈ before, StandsAt source e.opening t.start →
            e.opening.utf8ByteSize < d.opening.utf8ByteSize) ∧
          t.text.toList = d.opening.toList ++ inside ∧
          StandsBefore source t.text t.start rest ∧ d.Runs inside rest := by
  have hsound := l.sound_of_validate h
  constructor
  · intro t ht hkind o ho hstands
    obtain ⟨n, hn⟩ := List.mem_iff_getElem?.mp ht
    obtain ⟨front, modes, c, cs, -, hsource, hstart, htokenkind, htext⟩ :=
      Scan.exists_step_of_getElem? hn
    rw [htokenkind] at hkind
    have hcode := Scan.step_of_operator hkind
    rw [hstart, Nat.zero_add, standsAt_iff hsource] at hstands
    rw [hcode] at hkind htext
    by_cases hempty : o = ""
    · rw [hempty]
      exact Nat.zero_le _
    · have hsorted : table.operators.Pairwise fun a b => b.utf8ByteSize ≤ a.utf8ByteSize := by
        rw [operators_of_validate h]
        exact pairwise_size_canonicalOperators _
      have hmem : o ∈ table.operators := by
        rw [operators_of_validate h]
        exact mem_canonicalOperators.mpr ⟨ho, hempty⟩
      rw [htext]
      exact Scan.codeStep_longest hsorted hkind o hmem hstands
  · intro n t hn hkind hcode
    obtain ⟨front, modes, c, cs, hplace, hsource, hstart, htokenkind, htext⟩ :=
      Scan.exists_step_of_getElem? hn
    rw [Scan.Place.first, hplace] at hcode
    rw [Scan.step_code hcode] at htokenkind htext
    rw [hkind] at htokenkind
    obtain ⟨d, r, hfound, htaken, hrest⟩ := Scan.literal_of_codeStep htokenkind.symm
    rw [delimiters_of_validate h] at hfound
    obtain ⟨hlongest, before, after, hsplit, hfirst⟩ := Scan.literalAt?_longest hsound hfound
    have hd : d ∈ l.strings.delimiters := by simp [hsplit]
    rw [Nat.zero_add] at hstart
    refine ⟨before, d, after, (Scan.literalText d r).taken, (Scan.literalText d r).rest, hsplit,
      fun e he hstands => hlongest e he ?_, fun e he hstands => hfirst e he ?_, ?_, ?_,
      Scan.runs_literalText (hsound d hd) r⟩
    · rwa [hstart, standsAt_iff hsource] at hstands
    · rwa [hstart, standsAt_iff hsource] at hstands
    · rw [htext, htaken, String.toList_ofList]
    · refine ⟨front, ?_, hstart.symm⟩
      rw [hsource, htext, String.toList_ofList, ← hrest, Scan.codeStep_append]

/-- Operators and delimiters in no order, with repetitions. -/
def shuffled : Language where
  id := "toy"
  comments := {}
  strings := { delimiters := [.quoted "'" none false none, .quoted "''" none false none,
    { opening := "''", closing := "\n", multiline := true }] }
  operators := ["=", "==", "=>", "=", "==>", "=="]

/-- The shuffled table in order. -/
theorem shuffled_canonical : shuffled.canonical =
    { shuffled with
      strings := { delimiters := [.quoted "''" none false none,
        { opening := "''", closing := "\n", multiline := true }, .quoted "'" none false none] }
      operators := ["==>", "==", "=>", "="] } := by
  have hdelimiters : canonicalDelimiters shuffled.strings.delimiters =
      [.quoted "''" none false none, { opening := "''", closing := "\n", multiline := true },
        .quoted "'" none false none] := by
    have hone : "'".utf8ByteSize = 1 := rfl
    have htwo : "''".utf8ByteSize = 2 := rfl
    simp [canonicalDelimiters, shuffled, List.mergeSort, Delimiter.quoted, hone, htwo]
  have hoperators : canonicalOperators shuffled.operators = ["==>", "==", "=>", "="] := by
    rw [canonicalOperators_eq]
    decide +kernel
  rw [Language.canonical, hdelimiters, hoperators]
  decide +kernel

/-- The longest operator and the longest opening are found, though shorter ones are listed first. -/
theorem scan_longest_shuffled :
    shuffled.validate = .ok shuffled.canonical ∧
      ∃ o t, (scan shuffled.canonical "==>''x'';")[0]? = some o ∧
        o.kind = .operator ∧ o.text = "==>" ∧
        (∀ op ∈ shuffled.operators, StandsAt "==>''x'';" op o.start →
          op.utf8ByteSize ≤ o.text.utf8ByteSize) ∧
        (scan shuffled.canonical "==>''x'';")[1]? = some t ∧
        t.kind = .stringLiteral ∧ t.text = "''x''" ∧
        (∀ d outer, (Scan.placeAfter shuffled.canonical 1 (.first "==>''x'';")).modes ≠
          .literal d :: outer) ∧
        ∃ before d after, shuffled.strings.delimiters = before ++ d :: after ∧
          ∀ e ∈ before, StandsAt "==>''x'';" e.opening t.start →
            e.opening.utf8ByteSize < d.opening.utf8ByteSize := by
  have h : shuffled.validate = .ok shuffled.canonical :=
    Language.validate_eq_ok_iff.mpr ⟨by decide +kernel, rfl⟩
  have htokens : scan shuffled.canonical "==>''x'';" =
      [⟨.operator, "==>", 0, 3⟩, ⟨.stringLiteral, "''x''", 3, 8⟩, ⟨.punctuation, ";", 8, 9⟩] := by
    rw [shuffled_canonical]
    decide +kernel
  have hmodes : (Scan.placeAfter shuffled.canonical 1 (.first "==>''x'';")).modes = [] := by
    rw [shuffled_canonical]
    decide +kernel
  have hcode : ∀ d outer, (Scan.placeAfter shuffled.canonical 1 (.first "==>''x'';")).modes ≠
      .literal d :: outer := by
    intro d outer
    rw [hmodes]
    exact (List.cons_ne_nil _ _).symm
  obtain ⟨hoperators, hliterals⟩ := scan_longest h "==>''x'';"
  have hzero : (scan shuffled.canonical "==>''x'';")[0]? = some ⟨.operator, "==>", 0, 3⟩ := by
    rw [htokens]
    rfl
  have hfirst : (scan shuffled.canonical "==>''x'';")[1]? =
      some ⟨.stringLiteral, "''x''", 3, 8⟩ := by
    rw [htokens]
    rfl
  refine ⟨h, _, _, hzero, rfl, rfl, hoperators _ (List.mem_of_getElem? hzero) (.inl rfl), hfirst,
    rfl, rfl, hcode, ?_⟩
  obtain ⟨before, d, after, -, -, hsplit, -, hshorter, -⟩ := hliterals 1 _ hfirst rfl hcode
  exact ⟨before, d, after, hsplit, hshorter⟩

end Cyclomatic
