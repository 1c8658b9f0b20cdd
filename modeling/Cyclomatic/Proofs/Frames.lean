import Cyclomatic.Proofs.Anchors
import Cyclomatic.Proofs.Containment
import Cyclomatic.Proofs.GuardSearches
import Cyclomatic.Proofs.Levels
import Mathlib.Data.List.Perm.Subperm

/-!
# The brackets that scoring sees

Scoring keeps a stack of open brackets of its own, and steps over nested functions as wholes.  The
brackets that are really open before a token are given by their pairs (`Code.openBrackets`).

The stack agrees with them as long as the nested functions before the token take as many opening
as closing square brackets from the line before them (`Entity.Square`).  Then a guard looks at
the bracket that is innermost (`detect_innermost`).  Otherwise a bracket stays on the stack for the
rest of the body (`detect_annotation_stays`).
-/

namespace Cyclomatic

namespace Code

variable {code : Code} {rules : SignatureRules} {l : Language} {i j k : Nat}

/-! ## Open brackets -/

/-- The brackets open before a token, innermost first. -/
def openBrackets (code : Code) : Nat → List Nat
  | 0 => []
  | k + 1 =>
    if code.opensBracket k then k :: openBrackets code k
    else if code.closesBracket k then (openBrackets code k).tail
    else openBrackets code k

/-- The pair of a bracket holds a token or closes at it. -/
def Holds (code : Code) (o k : Nat) : Prop := o < k ∧ ∃ c, code.closer? o = some c ∧ k ≤ c

theorem Matched.exists_closer (hm : code.Matched) (hp : code.Paired)
    (h : code.opensBracket k = true) : ∃ c, code.closer? k = some c := by
  obtain ⟨b, hb⟩ := exists_opening h
  have hsome := hm k (code.lt_size_of_isPunct hb) (by rw [h, Bool.true_or])
  rw [hp.partner?_of_opensBracket h] at hsome
  exact Option.isSome_iff_exists.mp hsome

theorem Matched.exists_opener (hm : code.Matched) (hp : code.Paired)
    (h : code.closesBracket k = true) : ∃ o, code.closer? o = some k := by
  obtain ⟨b, hb⟩ := exists_closing h
  have hsome := hm k (code.lt_size_of_isPunct hb) (by rw [h, Bool.or_true])
  rw [hp.partner?_of_closesBracket h] at hsome
  obtain ⟨o, ho⟩ := Option.isSome_iff_exists.mp hsome
  exact ⟨o, hp.closer?_iff.mpr (hp.opener?_iff.mp ho)⟩

/-- A closer closes one bracket. -/
theorem Paired.closer?_inj (hp : code.Paired) {o o' c : Nat} (h : code.closer? o = some c)
    (h' : code.closer? o' = some c) : o = o' := by
  have ho := hp.opener?_iff.mpr (hp.closer?_iff.mp h)
  have ho' := hp.opener?_iff.mpr (hp.closer?_iff.mp h')
  exact Option.some.inj (ho.symm.trans ho')

/-- The bracket that a token closes is the innermost of those open before it. -/
theorem Holds.le_opener (hp : code.Paired) {o p : Nat} (ho : code.closer? o = some k)
    (h : code.Holds p k) : p ≤ o := by
  obtain ⟨hpk, c, hc, hkc⟩ := h
  refine Nat.le_of_not_lt fun hlt => ?_
  have := hp.nested ho hc hlt hpk
  omega

theorem Level.holds_iff (h : code.Level i j) (o : Nat) : code.Holds o i ↔ code.Holds o j := by
  constructor
  · rintro ⟨ho, c, hc, hi⟩
    obtain ⟨ho, hj⟩ := (h.same hc).mp ⟨ho, hi⟩
    exact ⟨ho, c, hc, hj⟩
  · rintro ⟨ho, c, hc, hj⟩
    obtain ⟨ho, hi⟩ := (h.same hc).mpr ⟨ho, hj⟩
    exact ⟨ho, c, hc, hi⟩

theorem holds_succ_of_opens (hp : code.Paired) (hm : code.Matched)
    (hk : code.opensBracket k = true) (o : Nat) :
    code.Holds o (k + 1) ↔ o = k ∨ code.Holds o k := by
  constructor
  · rintro ⟨ho, c, hc, hle⟩
    rcases Nat.lt_succ_iff_lt_or_eq.mp ho with hlt | heq
    · exact Or.inr ⟨hlt, c, hc, by omega⟩
    · exact Or.inl heq
  · rintro (rfl | ⟨ho, c, hc, hle⟩)
    · obtain ⟨d, hd⟩ := hm.exists_closer hp hk
      exact ⟨Nat.lt_succ_self o, d, hd, code.lt_closer? hd⟩
    · exact ⟨by omega, c, hc, Nat.lt_of_le_of_ne hle (ne_of_opensBracket hp hk hc)⟩

theorem holds_succ_of_closes (hp : code.Paired) {p : Nat} (hk : code.closer? p = some k) (o : Nat) :
    code.Holds o (k + 1) ↔ code.Holds o k ∧ o ≠ p := by
  constructor
  · rintro ⟨ho, c, hc, hle⟩
    have hne : o ≠ k := ne_of_opensBracket hp (opensBracket_of_closer? hp hc) hk
    refine ⟨⟨by omega, c, hc, by omega⟩, ?_⟩
    rintro rfl
    have := Option.some.inj (hc.symm.trans hk)
    omega
  · rintro ⟨⟨ho, c, hc, hle⟩, hne⟩
    refine ⟨by omega, c, hc, Nat.lt_of_le_of_ne hle ?_⟩
    rintro rfl
    exact hne (hp.closer?_inj hc hk)

/-- Brackets in order whose pairs hold a token start with the one that the token closes. -/
theorem eq_cons_of_closes (hp : code.Paired) {p : Nat} (hk : code.closer? p = some k)
    {open' : List Nat} (horder : open'.Pairwise (· > ·))
    (hmem : ∀ o, o ∈ open' ↔ code.Holds o k) : open' = p :: open'.tail := by
  have hp' : p ∈ open' := (hmem p).mpr ⟨code.lt_closer? hk, k, hk, Nat.le_refl k⟩
  cases open' with
  | nil => cases hp'
  | cons q rest =>
    rcases List.mem_cons.mp hp' with rfl | hin
    · rfl
    · have hlt := (List.pairwise_cons.mp horder).1 p hin
      have hle := ((hmem q).mp (List.mem_cons_self ..)).le_opener hp hk
      omega

/-- The brackets open before a token are those whose pairs hold it, innermost first. -/
theorem openBrackets_spec (hp : code.Paired) (hm : code.Matched) (k : Nat) :
    (code.openBrackets k).Pairwise (· > ·) ∧ ∀ o, o ∈ code.openBrackets k ↔ code.Holds o k := by
  induction k with
  | zero => exact ⟨.nil, fun o => iff_of_false nofun fun h => absurd h.1 (Nat.not_lt_zero o)⟩
  | succ k ih =>
    obtain ⟨horder, hmem⟩ := ih
    rw [openBrackets]
    split
    · rename_i hopens
      refine ⟨List.pairwise_cons.mpr ⟨fun o ho => ((hmem o).mp ho).1, horder⟩, fun o => ?_⟩
      rw [List.mem_cons, hmem, holds_succ_of_opens hp hm hopens]
    · rename_i hopens
      split
      · rename_i hcloses
        obtain ⟨p, hclose⟩ := hm.exists_opener hp hcloses
        have hcons := eq_cons_of_closes hp hclose horder hmem
        rw [hcons] at horder
        obtain ⟨hfirst, hrest⟩ := List.pairwise_cons.mp horder
        refine ⟨hrest, fun o => ?_⟩
        rw [holds_succ_of_closes hp hclose, ← hmem, hcons, List.mem_cons, List.tail_cons]
        constructor
        · exact fun ho => ⟨Or.inr ho, Nat.ne_of_lt (hfirst o ho)⟩
        · exact fun ho => ho.1.resolve_left ho.2
      · rename_i hcloses
        have hbracket : code.isBracket k = false := by simp [isBracket, hopens, hcloses]
        exact ⟨horder, fun o => (hmem o).trans ((Level.next hp hbracket).holds_iff o)⟩

/-- At one level, the same brackets are open. -/
theorem Level.openBrackets_eq (h : code.Level i j) (hp : code.Paired) (hm : code.Matched) :
    code.openBrackets i = code.openBrackets j := by
  obtain ⟨horder, hmem⟩ := openBrackets_spec hp hm i
  obtain ⟨horder', hmem'⟩ := openBrackets_spec hp hm j
  have hperm : (code.openBrackets i).Perm (code.openBrackets j) := by
    refine (List.perm_ext_iff_of_nodup horder.nodup horder'.nodup).mpr fun o => ?_
    rw [hmem, hmem', h.holds_iff]
  exact hperm.eq_of_pairwise (fun a b _ _ hab hba => by omega) horder horder'

/-! ## Frames -/

/-- An open bracket as scoring sees it. -/
def frameAt (code : Code) (o : Nat) : Frame :=
  if code.isPunct o "\x7b" then .block (code.openerWord o) else .group

/-- The brackets open before a token as scoring should see them. -/
def frames (code : Code) (k : Nat) : List Frame := (code.openBrackets k).map code.frameAt

theorem frames_of_opens (h : code.opensBracket k = true) :
    code.frames (k + 1) = code.frameAt k :: code.frames k := by
  rw [frames, openBrackets, if_pos h, List.map_cons, frames]

theorem frames_of_closes (hp : code.Paired) (hm : code.Matched) {p : Nat}
    (h : code.closer? p = some k) : code.frames k = code.frameAt p :: code.frames (k + 1) := by
  have hcloses := closesBracket_of_closer? hp h
  have hopens : ¬ code.opensBracket k = true := fun hopens => ne_of_opensBracket hp hopens h rfl
  obtain ⟨horder, hmem⟩ := openBrackets_spec hp hm k
  rw [frames, frames, openBrackets, if_neg hopens, if_pos hcloses, ← List.map_cons,
    ← eq_cons_of_closes hp h horder hmem]

theorem frames_of_not_isBracket (h : code.isBracket k = false) :
    code.frames (k + 1) = code.frames k := by
  simp only [isBracket, Bool.or_eq_false_iff] at h
  rw [frames, openBrackets, if_neg (by simp [h.1]), if_neg (by simp [h.2]), frames]

/-- Inside a pair, its bracket and those around it are open. -/
theorem length_frames_lt (hp : code.Paired) (hm : code.Matched) {base stop : Nat}
    (hbase : code.closer? base = some stop) (hk : base < k) (hstop : k ≤ stop) :
    (code.frames base).length < (code.frames k).length := by
  obtain ⟨horder, hmem⟩ := openBrackets_spec hp hm base
  obtain ⟨-, hmem'⟩ := openBrackets_spec hp hm k
  have hnodup : (base :: code.openBrackets base).Nodup :=
    (List.pairwise_cons.mpr ⟨fun o ho => ((hmem o).mp ho).1, horder⟩ :
      (base :: code.openBrackets base).Pairwise (· > ·)).nodup
  have hsub : base :: code.openBrackets base ⊆ code.openBrackets k := by
    intro o ho
    rw [hmem']
    rcases List.mem_cons.mp ho with rfl | ho
    · exact ⟨hk, stop, hbase, hstop⟩
    · obtain ⟨hlt, c, hc, hle⟩ := (hmem o).mp ho
      have hne : base ≠ c := ne_of_opensBracket hp (opensBracket_of_closer? hp hbase) hc
      have := hp.nested hc hbase hlt (by omega)
      exact ⟨by omega, c, hc, by omega⟩
  rw [frames, frames, List.length_map, List.length_map]
  exact (List.subperm_of_subset hnodup hsub).length_le

/-- A token changes the stack as it changes the open brackets. -/
theorem frames_openAfter (hp : code.Paired) (hm : code.Matched) {base stop : Nat}
    (hbase : code.closer? base = some stop) (hk : base < k) (hstop : k < stop)
    {stack : List Frame} (h : code.frames k = stack ++ code.frames base) :
    code.frames (k + 1) = code.openAfter stack k ++ code.frames base := by
  unfold openAfter
  split
  · rename_i hbrace
    rw [frames_of_opens (opensBracket_of_isPunct (b := .curly) hbrace), frameAt, if_pos hbrace, h]
    rfl
  · rename_i hbrace
    split
    · rename_i hopens
      rw [frames_of_opens hopens, frameAt, if_neg hbrace, h]
      rfl
    · rename_i hopens
      split
      · rename_i hcloses
        obtain ⟨p, hclose⟩ := hm.exists_opener hp hcloses
        have hframes := frames_of_closes hp hm hclose
        have hlength : (code.frames base).length < (code.frames (k + 1)).length :=
          length_frames_lt hp hm hbase (Nat.lt_succ_of_lt hk) hstop
        rw [h] at hframes
        -- The bracket of the body stays, so the stack holds another one above it.
        match stack, hframes with
        | [], hframes =>
          rw [List.nil_append] at hframes
          rw [hframes, List.length_cons] at hlength
          omega
        | [f], hframes =>
          obtain ⟨-, hrest⟩ := List.cons.inj hframes
          rw [← hrest] at hlength
          exact absurd hlength (Nat.lt_irrefl _)
        | f :: g :: below, hframes => exact (List.cons.inj hframes).2.symm
      · rename_i hcloses
        rw [frames_of_not_isBracket (by simp [isBracket, hopens, hcloses]), h]

/-! ## Square brackets before a function -/

/-- How often a punctuation mark stands among `n` tokens. -/
def tally (code : Code) (p : String) (i n : Nat) : Nat :=
  (List.range' i n).countP (code.isPunct · p)

theorem tally_succ (code : Code) (p : String) (i n : Nat) :
    code.tally p i (n + 1) = code.tally p i n + (code.isPunct (i + n) p).toNat := by
  rw [tally, List.range'_1_concat, List.countP_append, tally, List.countP_singleton]
  cases code.isPunct (i + n) p <;> rfl

/-- A search back for an opening angle passes neither braces nor parentheses. -/
theorem text_of_angleOpen? {depth r x : Nat} (h : code.angleOpen? depth j = some r) (hx : r ≤ x)
    (hj : x ≤ j) : code.text x ∉ ["\x7b", "\x7d", ";", "(", ")"] := by
  fun_induction code.angleOpen? depth j with
  | case1 depth hopen =>
    obtain rfl : x = 0 := Nat.le_zero.mp hj
    simp only [Bool.and_eq_true, beq_iff_eq] at hopen
    rw [hopen.1]
    decide
  | case2 => cases h
  | case3 depth p t hopen =>
    cases h
    obtain rfl : x = p + 1 := by omega
    simp only [Bool.and_eq_true, beq_iff_eq] at hopen
    rw [show code.text (p + 1) = "<" from hopen.1]
    decide
  | case4 => cases h
  | case5 depth p t hopen hstop ih =>
    rcases Nat.lt_succ_iff_lt_or_eq.mp (Nat.lt_succ_of_le hj) with hlt | rfl
    · exact ih h (by omega)
    · simp only [Bool.or_eq_true, not_or, List.contains_iff_mem] at hstop
      exact hstop.1

/-- The brackets between the start and the anchor of a signature are square. -/
theorem square_of_absorbed {x : Nat} (hx : code.signatureStart rules j ≤ x) (hj : x < j)
    (hb : code.isBracket x = true) : code.isPunct x "[" = true ∨ code.isPunct x "]" = true := by
  obtain ⟨p, hp, hpunct⟩ := exists_isPunct hb
  have hsquare : p = "[" ∨ p = "]" := by
    rcases leads_or_angles hx hj with hleads | ⟨o, q, ho, hq, -, hopen⟩
    · rcases leadsSignature_cases hleads with ⟨hword, -⟩ | hsymbol
      · rw [not_isWord_of_isPunct hpunct] at hword
        cases hword
      · have hall : ∀ p ∈ bracketTexts,
            p ∈ ["<", ">", "[", "]", ",", ".", "?", "@", "*"] → p = "[" ∨ p = "]" := by decide
        exact hall p hp (isPunct_text hpunct ▸ hsymbol)
    · have hall : ∀ p ∈ bracketTexts,
          p ∉ ["\x7b", "\x7d", ";", "(", ")"] → p = "[" ∨ p = "]" := by decide
      exact hall p hp (isPunct_text hpunct ▸ text_of_angleOpen? hopen ho hq)
  rcases hsquare with rfl | rfl
  · exact Or.inl hpunct
  · exact Or.inr hpunct

/-- A token has at most one text. -/
theorem isPunct_eq_false {p q : String} (h : code.isPunct k p = true) (hne : p ≠ q) :
    code.isPunct k q = false := by
  by_contra hq
  exact hne ((isPunct_text h).symm.trans (isPunct_text (Bool.eq_true_of_not_eq_false hq)))

theorem frameAt_of_square {o : Nat} (h : code.isPunct o "[" = true) : code.frameAt o = .group := by
  rw [frameAt, if_neg (by simp [isPunct_eq_false h (show "[" ≠ "\x7b" by decide)])]

theorem frames_of_openSquare (h : code.isPunct k "[" = true) :
    code.frames (k + 1) = .group :: code.frames k := by
  rw [frames_of_opens (opensBracket_of_isPunct (b := .square) h), frameAt_of_square h]

theorem frames_of_closeSquare (hp : code.Paired) (hm : code.Matched)
    (h : code.isPunct k "]" = true) : code.frames k = .group :: code.frames (k + 1) := by
  obtain ⟨p, hclose⟩ := hm.exists_opener hp (closesBracket_of_isPunct (b := .square) h)
  obtain ⟨b, hopens, hcloses⟩ := hp.shape hclose
  have hb : b = .square := by
    have htext := isPunct_text hcloses
    rw [isPunct_text h] at htext
    cases b
    · exact absurd htext (by decide)
    · rfl
    · exact absurd htext (by decide)
  subst hb
  rw [frames_of_closes hp hm hclose, frameAt_of_square hopens]

theorem replicate_append_cons {α : Type} (n : Nat) (x : α) (xs : List α) :
    List.replicate n x ++ x :: xs = List.replicate (n + 1) x ++ xs := by
  rw [List.append_cons, ← List.replicate_succ']

/-- Over tokens with no brackets but square ones, each of these adds a group to the open brackets
or takes one away. -/
theorem frames_squares (hp : code.Paired) (hm : code.Matched) {n : Nat}
    (h : ∀ x, i ≤ x → x < i + n → code.isBracket x = true →
      code.isPunct x "[" = true ∨ code.isPunct x "]" = true) :
    List.replicate (code.tally "]" i n) .group ++ code.frames (i + n) =
      List.replicate (code.tally "[" i n) .group ++ code.frames i := by
  induction n with
  | zero => rfl
  | succ n ih =>
    have ih := ih fun x hi hx => h x hi (by omega)
    rw [tally_succ, tally_succ, ← Nat.add_assoc]
    by_cases hopen : code.isPunct (i + n) "[" = true
    · rw [frames_of_openSquare hopen, isPunct_eq_false hopen (show "[" ≠ "]" by decide), hopen,
        Bool.toNat_false, Bool.toNat_true, Nat.add_zero, replicate_append_cons, List.replicate_succ,
        List.cons_append, ih, List.replicate_succ, List.cons_append]
    by_cases hclose : code.isPunct (i + n) "]" = true
    · rw [frames_of_closeSquare hp hm hclose, replicate_append_cons] at ih
      rw [hclose, Bool.eq_false_of_not_eq_true hopen, Bool.toNat_false, Bool.toNat_true, ih,
        Nat.add_zero]
    · have hplain : code.isBracket (i + n) = false := by
        by_contra hb
        rcases h (i + n) (by omega) (by omega) (Bool.eq_true_of_not_eq_false hb) with ho | hc
        · exact hopen ho
        · exact hclose hc
      rw [frames_of_not_isBracket hplain, Bool.eq_false_of_not_eq_true hopen,
        Bool.eq_false_of_not_eq_true hclose, Bool.toNat_false, Nat.add_zero, Nat.add_zero, ih]

end Code

/-- The tokens between the start and the anchor of the function hold as many opening as closing
square brackets. -/
def Entity.Square (code : Code) (rules : SignatureRules) (e : Entity) : Prop :=
  ∀ a, e.FoundAt code rules a → code.tally "[" e.start (a - e.start) =
    code.tally "]" e.start (a - e.start)

namespace Code

variable {code : Code} {rules : SignatureRules} {l : Language} {i j k : Nat}

/-- Such a function starts with the brackets open that are open at its anchor. -/
theorem frames_start (hp : code.Paired) (hm : code.Matched) {e : Entity}
    (h : e.Square code rules) {a : Nat} (ha : e.FoundAt code rules a) :
    code.frames a = code.frames e.start := by
  have hle := ha.start_le
  have hcount := h a ha
  obtain ⟨-, -, -, -, -, -, hstart, -⟩ := ha
  have hsquares := frames_squares hp hm (i := e.start) (n := a - e.start) fun x hx hlt hb =>
    square_of_absorbed (hstart ▸ hx) (by omega) hb
  rw [hcount, Nat.add_sub_cancel' hle] at hsquares
  exact List.append_cancel_left hsquares

/-! ## The stack along a body -/

/-- A nested function that leaves the open brackets as they are, and is bound with them open. -/
structure LeavesFrames (code : Code) (c : Child) : Prop where
  /-- The brackets open behind it are those open before it. -/
  behind : code.frames (c.last + 1) = code.frames c.start
  /-- They are open at what binds it, too. -/
  binding : ∀ b, c.binding = some b → code.frames b = code.frames c.start

/-- Functions from token `k` on, each with what binds it, in the order of the code. -/
structure FromOn (k : Nat) (children : List Child) : Prop where
  /-- A function ends before the next one starts. -/
  order : children.Pairwise fun a b => a.last < b.start
  /-- It starts at the token or later. -/
  le_start : ∀ c ∈ children, k ≤ c.start
  /-- It does not end before it starts. -/
  start_le : ∀ c ∈ children, c.start ≤ c.last
  /-- What binds it stands after its start. -/
  lt_binding : ∀ c ∈ children, ∀ b, c.binding = some b → c.start < b

/-- A function that is found starts at the token, and the others start behind it. -/
theorem FromOn.found {children rest : List Child} {c : Child} (h : FromOn k children)
    (hc : childAt? k children = some (c, rest)) :
    c ∈ children ∧ c.start = k ∧ FromOn (c.last + 1) rest ∧ rest ⊆ children := by
  obtain ⟨gone, rfl, -, hstart, -⟩ := childAt?_split hc
  have hmem : c ∈ gone ++ c :: rest := by simp
  have hsub : rest.Sublist (gone ++ c :: rest) :=
    (List.sublist_cons_self c rest).trans (List.sublist_append_right gone _)
  have hbehind := List.pairwise_cons.mp (h.order.sublist (List.sublist_append_right gone _))
  refine ⟨hmem, Nat.le_antisymm hstart (h.le_start c hmem), ?_, hsub.subset⟩
  exact ⟨hbehind.2, hbehind.1, fun c' hc' => h.start_le c' (hsub.subset hc'),
    fun c' hc' => h.lt_binding c' (hsub.subset hc')⟩

/-- Where no function is found, all of them start behind the token. -/
theorem FromOn.passed {children : List Child} (h : FromOn k children)
    (hc : childAt? k children = none) : FromOn (k + 1) children := by
  refine ⟨h.order, fun c hmem => ?_, h.start_le, h.lt_binding⟩
  have hout := childAt?_outside h.order hc c hmem
  have := h.le_start c hmem
  have := h.start_le c hmem
  omega

theorem FromOn.le_token {options : ScoringOptions} {stop : Nat} {children : List Child}
    {stack : List Frame} (h : FromOn k children) {v : Visit}
    (hv : v ∈ code.visitsFrom l options stop k children stack) : k ≤ v.token := by
  rcases (listed_of_mem h.order hv).counted with ⟨hle, -⟩ | ⟨c, hc, hb, -⟩
  · exact hle
  · exact Nat.le_of_lt (Nat.lt_of_le_of_lt (h.le_start c hc) (h.lt_binding c hc _ hb))

/-- The bracket around the whole body stays on the stack. -/
theorem openAfter_ne_nil {stack : List Frame} (h : stack ≠ []) : code.openAfter stack k ≠ [] := by
  unfold openAfter
  repeat' split
  all_goals simp_all

theorem stack_ne_nil {options : ScoringOptions} {stop : Nat} {children : List Child}
    {stack : List Frame} (h : stack ≠ []) {v : Visit}
    (hv : v ∈ code.visitsFrom l options stop k children stack) : v.stack ≠ [] := by
  fun_induction code.visitsFrom l options stop k children stack with
  | case1 k children stack hstop c rest hc hlast ih =>
    rcases List.mem_append.mp hv with hv | hv
    · obtain ⟨b, -, rfl⟩ := Option.map_eq_some_iff.mp (Option.mem_toList.mp hv)
      exact h
    · exact ih h hv
  | case2 k children stack hstop hc hlt ih =>
    rcases List.mem_cons.mp hv with rfl | hv
    · exact openAfter_ne_nil h
    · exact ih (openAfter_ne_nil h) hv
  | case3 => cases hv

/-- A token that is no bracket leaves the stack. -/
theorem openAfter_of_not_isBracket {stack : List Frame} (h : code.isBracket k = false) :
    code.openAfter stack k = stack := by
  simp only [isBracket, Bool.or_eq_false_iff] at h
  have hbrace : ¬ code.isPunct k "\x7b" = true := by
    intro hbrace
    rw [opensBracket_of_isPunct (b := .curly) hbrace] at h
    cases h.1
  unfold openAfter
  rw [if_neg hbrace, if_neg (by simp [h.1]), if_neg (by simp [h.2])]

/-- The stack of a listed token holds the brackets of the body that are open there, provided that
the functions before it leave them.  The walk stands at the start of a function when it finds it,
so the brackets open there are those on the stack. -/
theorem frames_of_mem (hp : code.Paired) (hm : code.Matched) {base stop : Nat}
    (hbase : code.closer? base = some stop) {children : List Child} {stack : List Frame}
    (hk : base < k) (hframes : code.frames k = stack ++ code.frames base)
    (hahead : FromOn k children) {v : Visit}
    (hv : v ∈ code.visitsFrom l counting stop k children stack)
    (hleaves : ∀ c ∈ children, c.start ≤ v.token → code.LeavesFrames c)
    (hplain : code.isBracket v.token = false) :
    code.frames v.token = v.stack ++ code.frames base := by
  fun_induction code.visitsFrom l counting stop k children stack with
  | case1 k children stack hstop c rest hc hlast ih =>
    obtain ⟨hmem, rfl, hrest, hsub⟩ := hahead.found hc
    rcases List.mem_append.mp hv with hv | hv
    · obtain ⟨b, hb, rfl⟩ := Option.map_eq_some_iff.mp (Option.mem_toList.mp hv)
      have hlt := hahead.lt_binding c hmem b hb
      rw [(hleaves c hmem (Nat.le_of_lt hlt)).binding b hb, hframes]
    · have hle := hrest.le_token hv
      have hbehind := (hleaves c hmem (by omega)).behind
      exact ih (by omega) (hbehind.trans hframes) hrest hv fun c' hc' => hleaves c' (hsub hc')
  | case2 k children stack hstop hc hlt ih =>
    rcases List.mem_cons.mp hv with rfl | hv
    · exact hframes.trans (by rw [openAfter_of_not_isBracket hplain])
    · rw [afterVisit_counting] at ih hv
      exact ih (by omega) (frames_openAfter hp hm hbase hk hstop hframes) (hahead.passed hc) hv
        hleaves
  | case3 => cases hv

/-! ## The innermost bracket -/

/-- The pair of the bracket is the innermost that holds the token. -/
def Innermost (code : Code) (o k : Nat) : Prop :=
  (∃ c ∈ code.closer? o, o < k ∧ k < c) ∧ ∀ p < k, ∀ d ∈ code.closer? p, k < d → p ≤ o

instance (o k : Nat) : Decidable (code.Innermost o k) := inferInstanceAs (Decidable (_ ∧ _))

/-- The first frame is that of the innermost bracket. -/
theorem innermost_of_frames (hp : code.Paired) (hm : code.Matched)
    (hplain : code.isBracket k = false) {f : Frame} {below : List Frame}
    (h : code.frames k = f :: below) : ∃ o, code.Innermost o k ∧ code.frameAt o = f := by
  obtain ⟨horder, hmem⟩ := openBrackets_spec hp hm k
  obtain ⟨o, rest, hopen, hf, -⟩ := List.map_eq_cons_iff.mp h
  rw [hopen] at horder hmem
  have hnot : ∀ {p d}, code.closer? p = some d → k ≠ d := by
    rintro p d hd rfl
    have hcloses := closesBracket_of_closer? hp hd
    rw [isBracket, hcloses, Bool.or_true] at hplain
    cases hplain
  obtain ⟨hlt, c, hc, hle⟩ := (hmem o).mp (List.mem_cons_self ..)
  refine ⟨o, ⟨⟨c, hc, hlt, Nat.lt_of_le_of_ne hle (hnot hc)⟩, fun p hp' d hd hkd => ?_⟩, hf⟩
  rcases List.mem_cons.mp ((hmem p).mpr ⟨hp', d, hd, Nat.le_of_lt hkd⟩) with rfl | hin
  · exact Nat.le_refl p
  · exact Nat.le_of_lt ((List.pairwise_cons.mp horder).1 p hin)

end Code

namespace Walk

variable {code : Code} {rules : SignatureRules} {i id : Nat} {w : Walk} {e : Entity}

/-- The nested functions of a function come one after the other behind its brace. -/
theorem Ordered.fromOn (h : Ordered code i w) (hp : code.Paired) (hm : code.Matched)
    (he : w.forest.at? id = some e) :
    Code.FromOn (e.opening + 1) ((Code.nested w.forest e).map (Code.childOf code.size)) := by
  have horder := h.inOrder hp he
  refine ⟨horder.order.imp And.left, fun c hc => ?_, fun c hc => ?_, fun c hc b hb =>
    (horder.binding c hc b hb).1⟩
  all_goals
    obtain ⟨c, hmem, rfl⟩ := List.mem_map.mp hc
    obtain ⟨cid, hcid, hparent⟩ := (h.mem_nested_iff he).mp hmem
  · exact h.after he hcid hparent
  · obtain ⟨d, hd, -, hclose⟩ := h.exists_close hp hm hcid
    have hle := (h.placed hcid).1.start_le
    have hlt := code.lt_closer? hclose
    simp only [Code.childOf, Entity.last, hd, Option.getD_some]
    omega

/-- A function whose signature takes as many opening as closing brackets leaves the open
brackets. -/
theorem leavesFrames_run (hp : code.Paired) (hm : code.Matched) (hr : rules.Bracketless)
    (hrun : Run code rules (0, {}) (i, w)) (he : w.forest.at? id = some e)
    (hsquare : e.Square code rules) : code.LeavesFrames (Code.childOf code.size e) := by
  obtain ⟨a, hfound⟩ := found_run hp hrun he
  obtain ⟨d, hd, -, hclose⟩ := (ordered_run hp hrun).exists_close hp hm he
  have hstart : code.frames a = code.frames e.start := Code.frames_start hp hm hsquare hfound
  obtain ⟨v, s, -, -, hs, htail, -, hbinding⟩ := hfound
  have hlevel := Code.signatureAt_level hp hr hs
  have hsame : ∀ {k}, code.Level a k → code.frames k = code.frames e.start := fun h => by
    rw [← hstart, Code.frames, Code.frames, h.openBrackets_eq hp hm]
  constructor
  · have hlast : (Code.childOf code.size e).last = d := by
      simp only [Code.childOf, Entity.last, hd, Option.getD_some]
    rw [hlast]
    exact hsame ((hlevel.body htail).trans (.group hp hclose))
  · intro b hb
    exact hsame (hlevel.binding (hbinding ▸ hb))

/-- The stack of a judged token holds the brackets of the body that are open there. -/
theorem frames_run (hp : code.Paired) (hm : code.Matched) {l : Language}
    (hr : l.signatures.Bracketless) (hrun : Run code l.signatures (0, {}) (i, w))
    (he : w.forest.at? id = some e) {v : Visit} (hv : v ∈ code.visits l counting w.forest e)
    (hplain : code.isBracket v.token = false)
    (hsquare : ∀ c ∈ Code.nested w.forest e, c.start ≤ v.token → c.Square code l.signatures) :
    code.frames v.token = v.stack ++ code.frames e.opening := by
  have hordered := ordered_run hp hrun
  obtain ⟨d, hd, -, hclose⟩ := hordered.exists_close hp hm he
  have hbrace := (hordered.placed he).1.brace
  have hstart : code.frames (e.opening + 1) =
      [.block (code.openerWord e.opening)] ++ code.frames e.opening := by
    rw [Code.frames_of_opens (Code.opensBracket_of_isPunct (b := .curly) hbrace), Code.frameAt,
      if_pos hbrace]
    rfl
  rw [Code.visits, hd] at hv
  refine Code.frames_of_mem hp hm hclose (Nat.lt_succ_self _) hstart (hordered.fromOn hp hm he) hv
    (fun c hc hle => ?_) hplain
  obtain ⟨c, hmem, rfl⟩ := List.mem_map.mp hc
  obtain ⟨cid, hcid, -⟩ := (hordered.mem_nested_iff he).mp hmem
  exact leavesFrames_run hp hm hr hrun hcid (hsquare c hmem hle)

end Walk

/-- In a source of a built-in language whose brackets all have partners, a guard looks at the
bracket that is innermost at its token, provided that the signatures of the nested functions before
it take as many opening as closing square brackets. -/
theorem detect_innermost (name : String) (l : Language)
    (hl : Registry.builtin.lookup? name = some l) (source : String)
    (hm : (Code.ofSource l source).Matched) :
    ∃ forest, detect l (Code.ofSource l source) = .ok forest ∧
      ∀ id e, forest.at? id = some e →
        ∀ v ∈ (Code.ofSource l source).visits l counting forest e,
          (Code.ofSource l source).isBracket v.token = false →
          (∀ c ∈ Code.nested forest e, c.start ≤ v.token →
            c.Square (Code.ofSource l source) l.signatures) →
          ∃ o, (Code.ofSource l source).Innermost o v.token ∧
            v.stack.head? = some ((Code.ofSource l source).frameAt o) ∧
            (Code.ofSource l source).judge? l v = (Code.ofSource l source).judge? l
              { v with stack := [(Code.ofSource l source).frameAt o] } := by
  have hp := Code.paired_ofSource l source
  obtain ⟨forest, hforest, j, w, hrun, -, rfl⟩ := detect_run_builtin hl source
  refine ⟨w.forest, hforest, fun id e he v hv hplain hsquare => ?_⟩
  have hframes := Walk.frames_run hp hm (bracketless_builtin hl) hrun he hv hplain hsquare
  obtain ⟨f, below, hstack⟩ := List.exists_cons_of_ne_nil (Code.stack_ne_nil (by simp) hv)
  rw [hstack, List.cons_append] at hframes
  obtain ⟨o, hinner, rfl⟩ := Code.innermost_of_frames hp hm hplain hframes
  have hhead : v.stack.head? = some ((Code.ofSource l source).frameAt o) := by rw [hstack]; rfl
  have hrule : (Code.ofSource l source).ruleAt? l v.stack v.token =
      (Code.ofSource l source).ruleAt? l [(Code.ofSource l source).frameAt o] v.token :=
    Code.ruleAt?_congr (by rw [hhead]; rfl)
  exact ⟨o, hinner, hhead, by rw [Code.judge?, Code.judge?, hrule]⟩

/-! ## An annotation before a local function -/

/-- A function with a local function in a branch, and an annotation before that. -/
def branchWith (note : String) : String :=
  "fun f(x: Int) \x7b when (x) \x7b 1 -> \x7b " ++ note ++
    " fun g() \x7b \x7d \x7d else -> \x7b \x7d \x7d \x7d"

/-- The code of that source with an annotation that is a word. -/
abbrev wordCode : Code := Code.ofSource Language.Kotlin.table.canonical (branchWith "@[A]")

/-- The code of that source with an annotation that has an argument. -/
abbrev argumentCode : Code :=
  Code.ofSource Language.Kotlin.table.canonical (branchWith "@[Suppress(\"A\")]")

/-- The range of the local function holds both brackets of the annotation. -/
theorem wordCode_facts : ∃ forest e,
    detect Language.Kotlin.table.canonical wordCode = .ok forest ∧
      forest.at? 0 = some e ∧ wordCode.Matched ∧
      (∀ c ∈ Code.nested forest e, ∀ a < wordCode.size,
        (∃ s ∈ (wordCode.signatureAt Language.Kotlin.table.canonical.signatures
          [] a).toOption.join, s.tail = .body c.opening) →
        wordCode.tally "[" c.start (a - c.start) =
          wordCode.tally "]" c.start (a - c.start)) ∧
      ∃ v ∈ wordCode.visits Language.Kotlin.table.canonical counting forest e,
        v.token = 28 ∧ wordCode.isBracket v.token = false := by
  rw [wordCode, Code.ofSource_eq_ofChars _ (branchWith _)
    (append_eq_ofList (append_eq_ofList rfl rfl) rfl), Language.Kotlin.canonical_eq]
  exact exists_of_check (by decide +kernel)

/-- The arrow of the last branch is judged by the bracket around it. -/
theorem detect_innermost_branch : ∃ forest e,
    detect Language.Kotlin.table.canonical wordCode = .ok forest ∧
      forest.at? 0 = some e ∧ wordCode.Matched ∧
      ∃ v ∈ wordCode.visits Language.Kotlin.table.canonical counting forest e,
        v.token = 28 ∧ ∃ o, wordCode.Innermost o v.token ∧
          v.stack.head? = some (wordCode.frameAt o) := by
  obtain ⟨forest, e, hforest, he, hm, hsquare, v, hv, htoken, hplain⟩ := wordCode_facts
  obtain ⟨forest', hforest', hall⟩ :=
    detect_innermost "kotlin" Language.Kotlin.table.canonical rfl (branchWith "@[A]") hm
  obtain rfl := Except.ok.inj (hforest'.symm.trans hforest)
  obtain ⟨o, hinner, hhead, -⟩ := hall 0 e he v hv hplain fun c hc _ a hfound => by
    obtain ⟨hsize, hs⟩ := hfound.signature rfl
    exact hsquare c hc a hsize hs
  exact ⟨forest', e, hforest, he, hm, v, hv, htoken, o, hinner, hhead⟩

/-- The search for the start of the local function stops at the argument, so its range begins with
the bracket that closes the annotation.  The one that opens it stays on the stack, and the brace
after the function takes it away in place of its own.  So the last branch is taken for a lambda. -/
theorem detect_annotation_stays : ∃ forest e,
    detect Language.Kotlin.table.canonical argumentCode = .ok forest ∧
      forest.at? 0 = some e ∧ argumentCode.Matched ∧
      ∃ v ∈ argumentCode.visits Language.Kotlin.table.canonical counting forest e,
        argumentCode.isBracket v.token = false ∧ ∃ o < v.token,
          argumentCode.Innermost o v.token ∧
          argumentCode.frameAt o = .block "when" ∧
          v.stack.head? = some (.block "->") ∧
          (argumentCode.judge? Language.Kotlin.table.canonical v).map
            (fun d => (d.category, d.offset)) = some (.lambda, 70) ∧
          argumentCode.judge? Language.Kotlin.table.canonical
            { v with stack := [.block "when"] } = none := by
  rw [argumentCode, Code.ofSource_eq_ofChars _ (branchWith _)
    (append_eq_ofList (append_eq_ofList rfl rfl) rfl), Language.Kotlin.canonical_eq]
  exact exists_of_check (by decide +kernel)

end Cyclomatic
