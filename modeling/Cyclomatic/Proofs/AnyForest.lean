import Cyclomatic.Proofs.GuardSearches
import Cyclomatic.Proofs.Sums

/-!
# Scoring any forest

Scoring takes a forest as it comes, with whatever places and nested functions are recorded in it.
The reads of scoring are made explicit here: `Code.spanRead` is the check of a function and
`Code.scoreRound` one round of the walk over its body, both with an answer of their own for a token
or function that is read and does not exist.  That answer is never given, and the walk ends
(`Code.scores_score`).

The check fails exactly for the functions that are `Misplaced`.  In a function that passes, the
walk judges tokens of the body in order, and none inside a nested function.  It has no result if a
guard takes the depth of a generic list below zero at a judged token, or the score leaves its word,
and only then (`score_anyForest`).  A table with the letter `<` brings about the former
(`score_letterAngle`).
-/

namespace Cyclomatic

namespace Code

variable (code : Code) (l : Language) (options : ScoringOptions) (forest : Forest)

/-! ## The reads of the check -/

/-- The first nested function that is out of place, or `none` once a function is read that does
not exist. -/
def strayRead (last previous : Nat) : List Nat → Option (Option Entity)
  | [] => some none
  | id :: ids =>
    (forest.at? id).bind fun c =>
      if c.start ≤ previous || last < c.last code.size then some (some c)
      else strayRead last (c.last code.size) ids

/-- What is wrong with a function whose body ends at an offset. -/
def endRead (e : Entity) (endByte : Nat) : Option (Option SpanFault) :=
  if e.span.endByte != endByte then some (some (.endOffset e.span.endByte endByte))
  else (code.strayRead forest (e.last code.size) e.opening e.children).map fun stray =>
    stray.map fun c => .childOutside c.qualifiedName

/-- What is wrong with the recorded place of a function, or `none` once a token or function is read
that does not exist. -/
def spanRead (e : Entity) : Option (Option SpanFault) :=
  if !code.isPunct e.opening "\x7b" then some (some (.noBrace (code.text e.opening)))
  else if e.opening < e.start then some (some .startAfterBody)
  else
    (code.token? e.start).bind fun first =>
      if e.span.startByte != first.start then
        some (some (.startOffset e.span.startByte first.start))
      else
        match e.close with
        | none => code.endRead forest e code.bytes
        | some c =>
          if code.isPunct c "\x7d" then
            (code.token? c).bind fun brace => code.endRead forest e brace.stop
          else some (some (.notClosed (code.text c)))

/-! ## The reads of the walk -/

/-- The first rule of a list that applies to a token with the given text.  A guard may take the
depth of a generic list out of range. -/
def ruleRead (stack : List Frame) (k : Nat) (text : String) :
    List DecisionRule → Except Fault (Option DecisionRule)
  | [] => .ok none
  | r :: rs =>
    if r.token == text then
      if code.guardUnderflows l r.guard stack k then .error .overflow
      else if code.guardHolds l r.guard stack k then .ok (some r)
      else ruleRead stack k text rs
    else ruleRead stack k text rs

/-- The rule for a token and the decision that it makes, or `none` if there is no such token. -/
def judgeRead (stack : List Frame) (k : Nat) :
    Option (Except Fault (Option (DecisionRule × Decision))) :=
  (code.token? k).map fun t =>
    if t.isWord || t.kind == .operator || t.kind == .punctuation then
      (code.ruleRead l stack k t.text l.decisions).map fun rule => rule.map fun r => (r,
        { category := r.category
          token := t.text
          line := code.lineOf k
          offset := t.start
          increment := r.increment })
    else .ok none

/-- Where the walk over a body is. -/
structure WalkState where
  /-- The token that comes next. -/
  next : Nat
  /-- The nested functions that have not been passed. -/
  children : List Child
  /-- The open brackets, innermost first. -/
  stack : List Frame
  /-- The score so far. -/
  score : UInt32
  /-- The decisions found so far. -/
  found : List Decision

/-- What a round does.  The walk leaves with `none` once a token is read that does not exist. -/
abbrev WalkRound := Round WalkState (Option (Except Fault (List Decision)))

/-- A decision is added to the score of a state, if the sum stays in its word. -/
def addRound (s : WalkState) (d : Decision) : WalkRound :=
  if s.score.toNat + d.increment.toNat < 2 ^ 32 then
    .again { s with score := s.score + d.increment, found := s.found ++ [d] }
  else .leave (some (.error .overflow))

/-- A round at a token of the body itself. -/
def ownRound (s : WalkState) : WalkRound :=
  match code.token? s.next with
  | none => .leave none
  | some _ =>
    let stack := code.openAfter s.stack s.next
    match code.judgeRead l stack s.next with
    | none => .leave none
    | some (.error fault) => .leave (some (.error fault))
    | some (.ok none) => .again { s with next := s.next + 1, stack := stack }
    | some (.ok (some (r, d))) =>
      addRound { s with next := code.afterDecision options s.next r, stack := stack } d

/-- A round at a token of a nested function, which is passed as a whole. -/
def childRound (s : WalkState) (c : Child) (rest : List Child) : WalkRound :=
  let s' := { s with next := c.last + 1, children := rest }
  match c.binding with
  | none => .again s'
  | some b =>
    match code.judgeRead l s.stack b with
    | none => .leave none
    | some (.error fault) => .leave (some (.error fault))
    | some (.ok none) => .again s'
    | some (.ok (some (_, d))) => addRound s' d

/-- One round of the walk over a body. -/
def scoreRound (stop : Nat) (s : WalkState) : WalkRound :=
  if s.next < stop then
    match s.children with
    | [] => code.ownRound l options s
    | c :: rest =>
      if c.last < s.next then .again { s with children := rest }
      else if c.start ≤ s.next then code.childRound l s c rest
      else code.ownRound l options s
  else .leave (some (.ok s.found))

/-- Scoring ends with an answer, and every token and function that it reads exists. -/
inductive Scores (e : Entity) : Except Fault (List Decision) → Prop where
  /-- The check fails. -/
  | fault {fault : SpanFault} : code.spanRead forest e = some (some fault) →
      Scores e (.error (.malformedSpan e.qualifiedName fault))
  /-- The check passes, and the walk ends after at most as many rounds as the body has tokens and
  nested functions. -/
  | body {children : List Entity} {answer : Except Fault (List Decision)} :
      code.spanRead forest e = some none → e.children.mapM forest.at? = some children →
      LeavesWithin (code.scoreRound l options (e.close.getD code.size))
        (e.close.getD code.size - (e.opening + 1) + children.length)
        ⟨e.opening + 1, children.map (childOf code.size), [.block (code.openerWord e.opening)], 1,
          []⟩
        (some answer) →
      Scores e answer

variable {code l options forest} {e : Entity}

/-! ## The check -/

theorem mapM_at? {ids : List Nat} (h : ∀ id ∈ ids, id < forest.entities.size) :
    ids.mapM forest.at? = some (ids.filterMap (forest.entities[·]?)) := by
  induction ids with
  | nil => rfl
  | cons id ids ih =>
    obtain ⟨hid, hids⟩ := List.forall_mem_cons.mp h
    have hat : forest.at? id = some forest.entities[id] := Array.getElem?_eq_getElem hid
    have hget : forest.entities[id]? = some forest.entities[id] := hat
    rw [List.mapM_cons, hat, ih hids, List.filterMap_cons_some hget]
    rfl

theorem strayRead_eq {last previous : Nat} {ids : List Nat}
    (h : ∀ id ∈ ids, id < forest.entities.size) :
    code.strayRead forest last previous ids =
      some (code.strayChild? last previous (ids.filterMap (forest.entities[·]?))) := by
  induction ids generalizing previous with
  | nil => rfl
  | cons id ids ih =>
    obtain ⟨hid, hids⟩ := List.forall_mem_cons.mp h
    have hat : forest.at? id = some forest.entities[id] := Array.getElem?_eq_getElem hid
    have hget : forest.entities[id]? = some forest.entities[id] := hat
    rw [strayRead, hat, Option.bind_some, List.filterMap_cons_some hget, strayChild?]
    split
    · rfl
    · exact ih hids

theorem endRead_eq (h : ∀ id ∈ e.children, id < forest.entities.size) (endByte : Nat) :
    code.endRead forest e endByte = some
      (if e.span.endByte != endByte then some (.endOffset e.span.endByte endByte)
      else (code.strayChild? (e.last code.size) e.opening (nested forest e)).map fun c =>
        .childOutside c.qualifiedName) := by
  rw [endRead, strayRead_eq h]
  split <;> rfl

theorem exists_token?_of_lt {i : Nat} (h : i < code.size) : ∃ t, code.token? i = some t := by
  have hget : code.lexemes[i]? = some code.lexemes[i] := Array.getElem?_eq_getElem h
  exact ⟨_, by rw [token?, hget, Option.map_some]⟩

theorem offset_of_token? {i : Nat} {t : Token} (h : code.token? i = some t) :
    code.offset i = t.start := by
  obtain ⟨x, hx, rfl⟩ := Option.map_eq_some_iff.mp h
  rw [offset, hx]
  rfl

/-- The check reads nothing that does not exist. -/
theorem spanRead_eq (h : ∀ id ∈ e.children, id < forest.entities.size) :
    code.spanRead forest e = some (code.spanFault? forest e) := by
  unfold spanRead spanFault?
  split
  · rfl
  rename_i hbrace
  split
  · rfl
  rename_i hstart
  have hsize : e.opening < code.size := code.lt_size_of_isPunct (by simpa using hbrace)
  obtain ⟨first, hfirst⟩ := exists_token?_of_lt (show e.start < code.size by omega)
  rw [hfirst, Option.bind_some, offset_of_token? hfirst]
  split
  · rfl
  cases hclose : e.close with
  | none => exact endRead_eq h _
  | some c =>
    cases hc : code.isPunct c "\x7d" with
    | false =>
      have hfilter : (some c).filter (!code.isPunct · "\x7d") = some c := by
        simp [Option.filter, hc]
      simp only [hc, Bool.false_eq_true, if_false, hfilter]
    | true =>
      obtain ⟨brace, hb, -⟩ := isPunct_iff_token?.mp hc
      have hfilter : (some c).filter (!code.isPunct · "\x7d") = none := by
        simp [Option.filter, hc]
      simp only [hc, if_true, hb, Option.bind_some, Option.map_some, Option.getD_some, hfilter,
        endRead_eq h]

/-! ## The walk -/

theorem ruleRead_eq {stack : List Frame} {k : Nat} (rs : List DecisionRule) :
    code.ruleRead l stack k (code.text k) rs =
      if code.rulesUnderflow l stack k rs then .error .overflow
      else .ok (rs.find? fun r => r.token == code.text k && code.guardHolds l r.guard stack k) := by
  induction rs with
  | nil => rfl
  | cons r rs ih =>
    rw [ruleRead, rulesUnderflow, ih]
    cases htext : r.token == code.text k with
    | false => simp [htext]
    | true =>
      cases hunder : code.guardUnderflows l r.guard stack k with
      | true => simp
      | false => cases hguard : code.guardHolds l r.guard stack k <;> simp [htext, hguard]

/-- A token that exists is judged.  The answer is the rule that applies, if the search for it stays
in range. -/
theorem judgeRead_eq {stack : List Frame} {k : Nat} (hk : k < code.size) :
    code.judgeRead l stack k = some
      (if code.judgeUnderflows l stack k then .error .overflow
      else .ok ((code.ruleAt? l stack k).map fun r => (r, code.decision k r))) := by
  have hget : code.lexemes[k]? = some code.lexemes[k] := Array.getElem?_eq_getElem hk
  have htoken : code.token? k = some code.lexemes[k].toToken := by
    rw [token?, hget, Option.map_some]
  have htext : code.lexemes[k].text = code.text k := by rw [text, hget]; rfl
  have hoffset : code.lexemes[k].start = code.offset k := (offset_of_token? htoken).symm
  have hdecides : (code.lexemes[k].isWord || code.lexemes[k].kind == .operator ||
      code.lexemes[k].kind == .punctuation) = code.decides k := by
    simp only [decides, isWord, isKind, kind?, hget, Option.any_some, Option.map_some,
      Option.some_beq_some]
  rw [judgeRead, htoken, Option.map_some, htext, hoffset, hdecides, ruleRead_eq]
  unfold judgeUnderflows ruleAt?
  cases code.decides k with
  | false => rfl
  | true => cases code.rulesUnderflow l stack k l.decisions <;> rfl

/-- The answer of a walk that has found some decisions and is still to make others. -/
def answerOf (underflows : Bool) (score : UInt32) (found ds : List Decision) :
    Except Fault (List Decision) :=
  if underflows || !scoreFits score ds then .error .overflow else .ok (found ++ ds)

/-- The answer of the walk from a state on. -/
def walkAnswer (code : Code) (l : Language) (options : ScoringOptions) (stop : Nat)
    (s : WalkState) : Except Fault (List Decision) :=
  answerOf ((code.visitsFrom l options stop s.next s.children s.stack).any fun v =>
      code.judgeUnderflows l v.stack v.token)
    s.score s.found (code.decisionsFrom l options stop s.next s.children s.stack)

/-- Adding a decision leaves the walk with its answer, or keeps the answer. -/
theorem addRound_cases {underflows : Bool} {s : WalkState} {d : Decision} {ds : List Decision} :
    addRound s d = .leave (some (answerOf underflows s.score s.found (d :: ds))) ∨
      ∃ score found, addRound s d = .again { s with score := score, found := found } ∧
        answerOf underflows score found ds = answerOf underflows s.score s.found (d :: ds) := by
  unfold addRound
  by_cases hfits : s.score.toNat + d.increment.toNat < 2 ^ 32
  · have hcons : scoreFits s.score (d :: ds) = scoreFits (s.score + d.increment) ds := by
      rw [scoreFits_cons, decide_eq_true hfits, Bool.true_and]
    refine .inr ⟨_, _, if_pos hfits, ?_⟩
    rw [answerOf, answerOf, hcons, List.append_assoc, List.singleton_append]
  · have hcons : scoreFits s.score (d :: ds) = false := by
      rw [scoreFits_cons, decide_eq_false hfits, Bool.false_and]
    left
    rw [if_neg hfits, answerOf, hcons, Bool.not_false, Bool.or_true, if_pos rfl]

/-- A round leaves with the answer of the walk, or goes on with the same answer and less before
it. -/
def Agrees (code : Code) (l : Language) (options : ScoringOptions) (stop : Nat) (s : WalkState)
    (round : WalkRound) : Prop :=
  round = .leave (some (code.walkAnswer l options stop s)) ∨
    ∃ s', round = .again s' ∧ code.walkAnswer l options stop s' = code.walkAnswer l options stop s ∧
      stop - s'.next + s'.children.length < stop - s.next + s.children.length ∧
      s'.children <:+ s.children

theorem ownRound_agrees {stop : Nat} {s : WalkState} (hstop : stop ≤ code.size)
    (hk : s.next < stop) (hnone : childAt? s.next s.children = none) :
    code.Agrees l options stop s (code.ownRound l options s) := by
  obtain ⟨k, children, stack, score, found⟩ := s
  obtain ⟨t, ht⟩ := exists_token?_of_lt (Nat.lt_of_lt_of_le hk hstop)
  dsimp only at hk
  unfold Agrees ownRound walkAnswer
  simp only [ht, judgeRead_eq (Nat.lt_of_lt_of_le hk hstop), visitsFrom_own hk hnone,
    List.any_cons]
  cases code.judgeUnderflows l (code.openAfter stack k) k with
  | true => exact .inl rfl
  | false =>
    cases hr : code.ruleAt? l (code.openAfter stack k) k with
    | none =>
      refine .inr ⟨_, rfl, ?_, by simp only; omega, List.suffix_rfl⟩
      simp [decisionsFrom_pass hk hnone hr, afterVisit, hr]
    | some r =>
      have hlt := code.lt_afterDecision options k r
      rw [decisionsFrom_rule hk hnone hr, afterVisit, hr, Bool.false_or]
      rcases addRound_cases (s := ⟨code.afterDecision options k r, children,
        code.openAfter stack k, score, found⟩) (d := code.decision k r) with
          hleave | ⟨_, _, hagain, hsame⟩
      · exact .inl hleave
      · exact .inr ⟨_, hagain, hsame, by simp only; omega, List.suffix_rfl⟩

theorem childRound_agrees {stop : Nat} {s : WalkState} {c : Child} {rest : List Child}
    (hk : s.next < stop) (hchildren : s.children = c :: rest) (hlast : s.next ≤ c.last)
    (hfound : childAt? s.next s.children = some (c, rest))
    (hbind : ∀ b, c.binding = some b → b < code.size) :
    code.Agrees l options stop s (code.childRound l s c rest) := by
  obtain ⟨k, children, stack, score, found⟩ := s
  obtain rfl : children = c :: rest := hchildren
  have hless : stop - (c.last + 1) + rest.length < stop - k + (c :: rest).length := by
    simp only [List.length_cons] at *
    omega
  unfold Agrees childRound walkAnswer
  simp only [visitsFrom_child hk hfound, decisionsFrom_child hk hfound, bindingDecision?]
  cases hb : c.binding with
  | none => exact .inr ⟨_, rfl, rfl, hless, List.suffix_cons c rest⟩
  | some b =>
    simp only [judgeRead_eq (hbind b hb), Option.map_some, Option.toList_some, Option.bind_some,
      List.singleton_append, List.any_cons]
    cases code.judgeUnderflows l stack b with
    | true => exact .inl rfl
    | false =>
      cases hr : code.ruleAt? l stack b with
      | none => exact .inr ⟨_, rfl, rfl, hless, List.suffix_cons c rest⟩
      | some r =>
        rw [Bool.false_or]
        rcases addRound_cases (s := ⟨c.last + 1, rest, stack, score, found⟩)
          (d := code.decision b r) with hleave | ⟨_, _, hagain, hsame⟩
        · exact .inl hleave
        · exact .inr ⟨_, hagain, hsame, hless, List.suffix_cons c rest⟩

/-- A nested function that ends before the walk starts is not seen. -/
theorem walkAnswer_passed {stop k : Nat} {c : Child} {rest : List Child} {stack : List Frame}
    {score : UInt32} {found : List Decision} (h : c.last < k) :
    code.walkAnswer l options stop ⟨k, c :: rest, stack, score, found⟩ =
      code.walkAnswer l options stop ⟨k, rest, stack, score, found⟩ := by
  have hgone : ∀ g ∈ [c], g.last < k := List.forall_mem_singleton.mpr h
  unfold walkAnswer
  simp only [← filterMap_visitsFrom, ← List.singleton_append (l := rest), visitsFrom_append hgone]

variable (l options) in
/-- Each round of the walk leaves with the answer, or passes a token or a nested function. -/
theorem scoreRound_agrees {stop : Nat} {s : WalkState} (hstop : stop ≤ code.size)
    (hbind : ∀ c ∈ s.children, ∀ b, c.binding = some b → b < code.size) :
    code.Agrees l options stop s (code.scoreRound l options stop s) := by
  obtain ⟨k, children, stack, score, found⟩ := s
  unfold scoreRound
  by_cases hk : k < stop
  case neg =>
    left
    simp [hk, walkAnswer, answerOf, visitsFrom_end hk, decisionsFrom, scoreFits]
  rw [if_pos hk]
  cases children with
  | nil => exact ownRound_agrees hstop hk rfl
  | cons c rest =>
    dsimp only
    by_cases hlast : c.last < k
    · refine .inr ⟨_, if_pos hlast, (walkAnswer_passed hlast).symm, ?_, List.suffix_cons c rest⟩
      simp only [List.length_cons]
      omega
    rw [if_neg hlast]
    by_cases hstart : c.start ≤ k
    · rw [if_pos hstart]
      refine childRound_agrees hk rfl (Nat.le_of_not_lt hlast) ?_ (List.forall_mem_cons.mp hbind).1
      rw [childAt?, if_neg hlast, if_pos hstart]
    · rw [if_neg hstart]
      refine ownRound_agrees hstop hk ?_
      rw [childAt?, if_neg hlast, if_neg hstart]

variable (l options) in
/-- The walk over a body leaves with its answer, by induction on what is left to pass. -/
theorem scoreRound_leaves {stop : Nat} {s : WalkState} (hstop : stop ≤ code.size)
    (hbind : ∀ c ∈ s.children, ∀ b, c.binding = some b → b < code.size) :
    LeavesWithin (code.scoreRound l options stop) (stop - s.next + s.children.length) s
      (some (code.walkAnswer l options stop s)) := by
  obtain ⟨n, hn⟩ : ∃ n, stop - s.next + s.children.length = n := ⟨_, rfl⟩
  induction n using Nat.strongRecOn generalizing s with
  | _ n ih =>
    rcases scoreRound_agrees l options hstop hbind with
      hleave | ⟨s', hagain, hsame, hless, hsuffix⟩
    · exact .now hleave
    · rw [← hsame]
      exact .later hagain hless
        (ih _ (by omega) (fun c hc => hbind c (hsuffix.subset hc)) rfl)

/-! ## What the check refuses -/

/-- The recorded place of a function disagrees with the tokens or with the functions inside it. -/
inductive Misplaced (code : Code) (forest : Forest) (e : Entity) : Prop where
  /-- The body does not start at a brace. -/
  | noBrace : code.isPunct e.opening "\x7b" = false → Misplaced code forest e
  /-- The signature starts after the body. -/
  | startAfterBody : e.opening < e.start → Misplaced code forest e
  /-- The first byte is not that of the first token. -/
  | startOffset : e.span.startByte ≠ code.offset e.start → Misplaced code forest e
  /-- The body does not end at a closing brace. -/
  | notClosed {c : Nat} : e.close = some c → code.isPunct c "\x7d" = false → Misplaced code forest e
  /-- The last byte is not that of the closing brace. -/
  | endOffset {c : Nat} {brace : Token} : e.close = some c → code.token? c = some brace →
      e.span.endByte ≠ brace.stop → Misplaced code forest e
  /-- The last byte of a body without closing brace is not that of the source. -/
  | endOfSource : e.close = none → e.span.endByte ≠ code.bytes → Misplaced code forest e
  /-- The first nested function does not start after the brace. -/
  | firstChild {c : Entity} : (nested forest e).head? = some c → c.start ≤ e.opening →
      Misplaced code forest e
  /-- A later one does not start after the last token of the one before. -/
  | nextChild {a b : Entity} : [a, b] <:+: nested forest e → b.start ≤ a.last code.size →
      Misplaced code forest e
  /-- One ends after the function. -/
  | childEnd {c : Entity} : c ∈ nested forest e → e.last code.size < c.last code.size →
      Misplaced code forest e

theorem strayChild?_eq_some_iff {last previous : Nat} {es : List Entity} :
    (∃ c, code.strayChild? last previous es = some c) ↔
      (∃ c, es.head? = some c ∧ c.start ≤ previous) ∨
      (∃ a b, [a, b] <:+: es ∧ b.start ≤ a.last code.size) ∨
      ∃ c ∈ es, last < c.last code.size := by
  induction es generalizing previous with
  | nil => simp [strayChild?]
  | cons e es ih =>
    rw [strayChild?]
    split
    · rename_i hstray
      refine iff_of_true ⟨e, rfl⟩ ?_
      rcases Bool.or_eq_true_iff.mp hstray with h | h
      · exact Or.inl ⟨e, rfl, of_decide_eq_true h⟩
      · exact Or.inr (Or.inr ⟨e, List.mem_cons_self .., of_decide_eq_true h⟩)
    · rename_i hplaced
      simp only [Bool.or_eq_true, decide_eq_true_eq, not_or, Nat.not_le, Nat.not_lt] at hplaced
      rw [ih]
      constructor
      · rintro (⟨c, hc, hle⟩ | ⟨a, b, hab, hle⟩ | ⟨c, hc, hlt⟩)
        · obtain ⟨rest, rfl⟩ := List.head?_eq_some_iff.mp hc
          exact Or.inr (Or.inl ⟨e, c, List.IsPrefix.isInfix ⟨rest, rfl⟩, hle⟩)
        · exact Or.inr (Or.inl ⟨a, b, List.infix_cons hab, hle⟩)
        · exact Or.inr (Or.inr ⟨c, List.mem_cons_of_mem e hc, hlt⟩)
      · rintro (⟨c, hc, hle⟩ | ⟨a, b, hab, hle⟩ | ⟨c, hc, hlt⟩)
        · cases hc
          omega
        · rcases List.infix_cons_iff.mp hab with hab | hab
          · obtain ⟨rest, hrest⟩ := hab
            cases hrest
            exact Or.inl ⟨b, rfl, hle⟩
          · exact Or.inr (Or.inl ⟨a, b, hab, hle⟩)
        · rcases List.mem_cons.mp hc with rfl | hc
          · omega
          · exact Or.inr (Or.inr ⟨c, hc, hlt⟩)

/-- What the check makes sure of. -/
structure InPlace (code : Code) (forest : Forest) (e : Entity) : Prop where
  /-- The body starts at a brace. -/
  brace : code.isPunct e.opening "\x7b" = true
  /-- The signature starts no later. -/
  start_le : e.start ≤ e.opening
  /-- The first byte is that of the first token. -/
  startByte : e.span.startByte = code.offset e.start
  /-- The body ends at a closing brace, if at all. -/
  close : ∀ c, e.close = some c → code.isPunct c "\x7d" = true
  /-- The last byte is that of the brace or of the source. -/
  endByte : e.span.endByte = ((e.close.bind code.token?).map (·.stop)).getD code.bytes
  /-- The nested functions follow one another in the body. -/
  children : code.strayChild? (e.last code.size) e.opening (nested forest e) = none

theorem inPlace_of_spanFault? (h : code.spanFault? forest e = none) : code.InPlace forest e := by
  unfold spanFault? at h
  split at h
  · cases h
  rename_i hbrace
  split at h
  · cases h
  rename_i hstart
  split at h
  · cases h
  rename_i hbyte
  split at h
  · cases h
  rename_i hclose
  dsimp only at h
  split at h
  · cases h
  rename_i hend
  refine ⟨by simpa using hbrace, Nat.le_of_not_lt hstart, by simpa using hbyte, fun c hc => ?_,
    by simpa using hend, Option.map_eq_none_iff.mp h⟩
  rw [hc] at hclose
  simpa [Option.filter] using hclose

theorem misplaced_of_spanFault? {fault : SpanFault} (h : code.spanFault? forest e = some fault) :
    Misplaced code forest e := by
  unfold spanFault? at h
  split at h
  · exact .noBrace (by simpa using ‹(!code.isPunct e.opening "\x7b") = true›)
  split at h
  · exact .startAfterBody ‹_›
  split at h
  · exact .startOffset (by simpa using ‹(e.span.startByte != code.offset e.start) = true›)
  split at h
  · rename_i c hc
    obtain ⟨hclose, hnot⟩ := Option.filter_eq_some_iff.mp hc
    exact .notClosed hclose (by simpa using hnot)
  rename_i hclosed
  dsimp only at h
  split at h
  · rename_i hend
    cases hclose : e.close with
    | none => exact .endOfSource hclose (by simpa [hclose] using hend)
    | some c =>
      rw [hclose] at hclosed
      have hbrace : code.isPunct c "\x7d" = true := by simpa [Option.filter] using hclosed
      obtain ⟨brace, hb, -⟩ := isPunct_iff_token?.mp hbrace
      exact .endOffset hclose hb (by simpa [hclose, hb] using hend)
  · obtain ⟨c, hstray, -⟩ := Option.map_eq_some_iff.mp h
    rcases strayChild?_eq_some_iff.mp ⟨c, hstray⟩ with
      ⟨c, hc, hle⟩ | ⟨a, b, hab, hle⟩ | ⟨c, hc, hlt⟩
    · exact .firstChild hc hle
    · exact .nextChild hab hle
    · exact .childEnd hc hlt

theorem InPlace.not_misplaced (h : code.InPlace forest e) : ¬ Misplaced code forest e := by
  have hnone : ¬ ∃ c, code.strayChild? (e.last code.size) e.opening (nested forest e) = some c := by
    rintro ⟨c, hc⟩
    rw [h.children] at hc
    cases hc
  rw [strayChild?_eq_some_iff] at hnone
  rintro (hbrace | hstart | hbyte | ⟨hc, hnot⟩ | ⟨hc, hb, hend⟩ | ⟨hc, hend⟩ | ⟨hc, hle⟩ |
    ⟨hab, hle⟩ | ⟨hc, hlt⟩)
  · rw [h.brace] at hbrace
    cases hbrace
  · exact Nat.not_lt_of_le h.start_le hstart
  · exact hbyte h.startByte
  · rw [h.close _ hc] at hnot
    cases hnot
  · exact hend (by simpa [hc, hb] using h.endByte)
  · exact hend (by simpa [hc] using h.endByte)
  · exact hnone (Or.inl ⟨_, hc, hle⟩)
  · exact hnone (Or.inr (Or.inl ⟨_, _, hab, hle⟩))
  · exact hnone (Or.inr (Or.inr ⟨_, hc, hlt⟩))

theorem spanFault?_eq_none_iff : code.spanFault? forest e = none ↔ ¬ Misplaced code forest e := by
  constructor
  · exact fun hnone => (inPlace_of_spanFault? hnone).not_misplaced
  · intro hplaced
    cases hfault : code.spanFault? forest e with
    | none => rfl
    | some fault => exact absurd (misplaced_of_spanFault? hfault) hplaced

/-- The check fails exactly for the functions that are out of place. -/
theorem score_error_iff :
    (∃ fault, code.score l options forest e = .error (.malformedSpan e.qualifiedName fault)) ↔
      Misplaced code forest e := by
  rw [← not_iff_not, ← spanFault?_eq_none_iff]
  cases hfault : code.spanFault? forest e with
  | some fault => simp [score_of_spanFault? hfault]
  | none =>
    refine iff_of_true ?_ rfl
    rintro ⟨fault, hscore⟩
    rcases score_eq_error hscore with ⟨f, hf, -⟩ | ⟨heq, -⟩
    · rw [hfault] at hf
      cases hf
    · cases heq

/-! ## Scoring as a whole -/

/-- Scoring ends, and it reads nothing that does not exist. -/
theorem scores_score (hchildren : ∀ id ∈ e.children, id < forest.entities.size)
    (hbindings : ∀ c ∈ nested forest e, ∀ b, c.binding = some b → b < code.size) :
    code.Scores l options forest e (code.score l options forest e) := by
  cases hfault : code.spanFault? forest e with
  | some fault =>
    rw [score_of_spanFault? hfault]
    exact .fault (by rw [spanRead_eq hchildren, hfault])
  | none =>
    have hplaced := inPlace_of_spanFault? hfault
    have hstop : e.close.getD code.size ≤ code.size := by
      cases hclose : e.close with
      | none => exact Nat.le_refl _
      | some c => exact Nat.le_of_lt (code.lt_size_of_isPunct (hplaced.close c hclose))
    have hbind : ∀ c ∈ (nested forest e).map (childOf code.size), ∀ b, c.binding = some b →
        b < code.size := by
      intro c hc b hb
      obtain ⟨x, hx, rfl⟩ := List.mem_map.mp hc
      exact hbindings x hx b hb
    have hscore : code.score l options forest e =
        code.walkAnswer l options (e.close.getD code.size)
          ⟨e.opening + 1, (nested forest e).map (childOf code.size),
            [.block (code.openerWord e.opening)], 1, []⟩ := by
      rw [score, hfault]
      rfl
    have hleaves := scoreRound_leaves l options
      (s := ⟨e.opening + 1, (nested forest e).map (childOf code.size),
        [.block (code.openerWord e.opening)], 1, []⟩) hstop hbind
    rw [hscore]
    refine .body (by rw [spanRead_eq hchildren, hfault]) (mapM_at? hchildren) ?_
    rwa [List.length_map] at hleaves

/-- Nested functions that pass the check, and do not end before they start, follow one another. -/
theorem pairwise_of_strayChild? {last previous : Nat} {es : List Entity}
    (h : code.strayChild? last previous es = none) (hle : ∀ c ∈ es, c.start ≤ c.last code.size) :
    (∀ c ∈ es, previous < c.start) ∧ es.Pairwise fun a b => a.last code.size < b.start := by
  induction es generalizing previous with
  | nil => exact ⟨List.forall_mem_nil _, .nil⟩
  | cons e es ih =>
    obtain ⟨hfirst, hrest⟩ := List.forall_mem_cons.mp hle
    rw [strayChild?] at h
    split at h
    · cases h
    · rename_i hplaced
      simp only [Bool.or_eq_true, decide_eq_true_eq, not_or, Nat.not_le, Nat.not_lt] at hplaced
      obtain ⟨hafter, hpairwise⟩ := ih h hrest
      refine ⟨List.forall_mem_cons.mpr ⟨hplaced.1, fun c hc => ?_⟩,
        List.pairwise_cons.mpr ⟨hafter, hpairwise⟩⟩
      have := hafter c hc
      omega

/-- A token that is judged in a function: one of its body outside the nested functions, or one that
binds a nested function. -/
def JudgedIn (code : Code) (forest : Forest) (e : Entity) (v : Visit) : Prop :=
  if v.binds then ∃ c ∈ nested forest e, c.binding = some v.token
  else e.opening < v.token ∧ v.token < e.close.getD code.size ∧
    ∀ c ∈ nested forest e, c.last code.size < v.token ∨ v.token < c.start

theorem judgedIn_of_mem
    (horder : (nested forest e).Pairwise fun a b => a.last code.size < b.start) {v : Visit}
    (hv : v ∈ code.visits l options forest e) : code.JudgedIn forest e v := by
  have hlisted := listed_of_mem (List.pairwise_map.mpr horder) hv
  unfold Listed at hlisted
  unfold JudgedIn
  split
  · rw [if_pos ‹_›] at hlisted
    obtain ⟨c, hc, hbinding, -⟩ := hlisted
    obtain ⟨x, hx, rfl⟩ := List.mem_map.mp hc
    exact ⟨x, hx, hbinding⟩
  · rw [if_neg ‹_›] at hlisted
    obtain ⟨hopen, hstop, hout⟩ := hlisted
    exact ⟨hopen, hstop, fun c hc => hout _ (List.mem_map_of_mem hc)⟩

/-- What scoring does with a function of any forest. -/
structure ScoringSafe (code : Code) (l : Language) (options : ScoringOptions) (forest : Forest)
    (e : Entity) : Prop where
  /-- It ends, and every token and function that it reads exists. -/
  scores : code.Scores l options forest e (code.score l options forest e)
  /-- The searches of its guards and lambdas end. -/
  searches : code.GuardSearchesEnd l
  /-- It fails exactly if the function is out of place. -/
  fault_iff :
    (∃ fault, code.score l options forest e = .error (.malformedSpan e.qualifiedName fault)) ↔
      Misplaced code forest e
  /-- A number leaves its range exactly if a guard takes the depth of a generic list below zero at a
  token that is judged, or one and the increments do not fit the word of the score. -/
  overflow_iff : code.score l options forest e = .error .overflow ↔ ¬ Misplaced code forest e ∧
    ((∃ v ∈ code.visits l options forest e, code.judgeUnderflows l v.stack v.token = true) ∨
      2 ^ 32 ≤ 1 + incrementSum (code.decisions l options forest e))
  /-- Otherwise it has decisions. -/
  ok_iff : (∃ ds, code.score l options forest e = .ok ds) ↔ ¬ Misplaced code forest e ∧
    (∀ v ∈ code.visits l options forest e, code.judgeUnderflows l v.stack v.token = false) ∧
      1 + incrementSum (code.decisions l options forest e) < 2 ^ 32
  /-- The decisions are those of tokens that bind a nested function, and of tokens of the body in
  order. -/
  judged : ∀ ds, code.score l options forest e = .ok ds →
    (∀ c ∈ nested forest e, c.start ≤ c.last code.size) →
    ds = (code.visits l options forest e).filterMap (code.judge? l) ∧
      ((code.visits l options forest e).filter (!·.binds)).Pairwise (fun a b => a.token < b.token) ∧
      ∀ v ∈ code.visits l options forest e, code.JudgedIn forest e v

end Code

/-- Scoring is safe for every forest whose numbers of nested functions and of binding tokens
exist, whatever else is recorded: it ends and reads nothing that does not exist, but a number may
leave its range. -/
theorem score_anyForest (table l : Language) (source : String) (options : ScoringOptions)
    (forest : Forest) (e : Entity) (hchildren : ∀ id ∈ e.children, id < forest.entities.size)
    (hbindings : ∀ c ∈ Code.nested forest e, ∀ b, c.binding = some b →
      b < (Code.ofSource table source).size) :
    (Code.ofSource table source).ScoringSafe l options forest e where
  scores := Code.scores_score hchildren hbindings
  searches := Code.guardSearchesEnd (Code.paired_ofSource table source) l
  fault_iff := Code.score_error_iff
  overflow_iff := by
    rw [Code.score_eq_overflow_iff, Code.spanFault?_eq_none_iff, Code.overflows_iff]
  ok_iff := by
    simp only [Code.score_eq_ok_iff, exists_and_left, exists_eq, and_true,
      Code.spanFault?_eq_none_iff, ← Bool.not_eq_true, Code.overflows_iff, not_or, not_exists,
      not_and, Nat.not_le]
  judged ds hds hle := by
    obtain ⟨hnone, -, rfl⟩ := Code.score_eq_ok_iff.mp hds
    have hplaced := Code.inPlace_of_spanFault? hnone
    have horder := (Code.pairwise_of_strayChild? hplaced.children hle).2
    exact ⟨(Code.filterMap_visits ..).symm, Code.pairwise_own (List.pairwise_map.mpr horder),
      fun v hv => Code.judgedIn_of_mem horder hv⟩

/-! ## A forest that detection does not build -/

/-- A function of the forest below, with the tokens of its place. -/
def handmade (name : String) (start opening close : Nat) (binding : Option Nat)
    (children : List Nat) : Entity where
  name := name
  qualifiedName := name
  signature := name
  parent := none
  children := children
  start := start
  opening := opening
  close := some close
  binding := binding
  span := ⟨0, 14, 1, 1⟩

/-- A function around two others.  The first ends before it starts, and the second has no body and
is bound by an operator. -/
def handmadeForest : Forest where
  entities := #[handmade "f" 0 3 7 none [1, 2], handmade "g" 4 9 3 none [],
    handmade "h" 5 0 6 (some 5) []]

/-- The operator counts, although the functions overlap. -/
theorem score_handmadeForest :
    ((Code.ofSource Language.Java.table.canonical "f() \x7b a && b \x7d").score
        Language.Java.table.canonical {} handmadeForest
        (handmade "f" 0 3 7 none [1, 2])).toOption.map (·.map (·.offset)) = some [8] ∧
      ¬ Code.Misplaced (Code.ofSource Language.Java.table.canonical "f() \x7b a && b \x7d")
        handmadeForest (handmade "f" 0 3 7 none [1, 2]) := by
  have hsize : (Code.ofSource Language.Java.table.canonical "f() \x7b a && b \x7d").size = 8 := by
    rw [Language.Java.canonical_eq]
    decide +kernel
  have hscore : ((Code.ofSource Language.Java.table.canonical "f() \x7b a && b \x7d").score
      Language.Java.table.canonical {} handmadeForest
      (handmade "f" 0 3 7 none [1, 2])).toOption.map (·.map (·.offset)) = some [8] := by
    rw [Language.Java.canonical_eq]
    decide +kernel
  have hsafe := score_anyForest Language.Java.table.canonical Language.Java.table.canonical
    "f() \x7b a && b \x7d" {} handmadeForest (handmade "f" 0 3 7 none [1, 2])
    (by decide) (by rw [hsize]; decide)
  refine ⟨hscore, fun hmis => ?_⟩
  obtain ⟨fault, hfault⟩ := hsafe.fault_iff.mpr hmis
  rw [hfault] at hscore
  cases hscore

/-! ## A letter that is taken for an angle -/

/-- Functions after the word `function`, and a decision for `new` with an anonymous body, where `<`
is a letter. -/
def newTable : Language where
  id := "toy"
  comments := {}
  strings := {}
  keywords := ["function", "new"]
  identifierChars := ['<']
  decisions := [{ token := "new", category := .lambda, guard := { anonymousBody := true } }]
  signatures := { introducers := ["function"] }

/-- The word `<` behind a type is entered as a generic list, but it opens none. -/
theorem score_letterAngle :
    Registry.empty.register newTable = .ok { tables := [newTable] } ∧ ∃ forest e,
      detect newTable (Code.ofSource newTable "function f() \x7b new T < > \x7d") = .ok forest ∧
      forest.at? 0 = some e ∧
      ¬ (Code.ofSource newTable "function f() \x7b new T < > \x7d").Misplaced forest e ∧
      (Code.ofSource newTable "function f() \x7b new T < > \x7d").score newTable {} forest e =
        .error .overflow := by
  obtain ⟨forest, e, hforest, he, hnone, hover⟩ : ∃ forest e,
      detect newTable (Code.ofSource newTable "function f() \x7b new T < > \x7d") = .ok forest ∧
      forest.at? 0 = some e ∧
      (Code.ofSource newTable "function f() \x7b new T < > \x7d").spanFault? forest e = none ∧
      (Code.ofSource newTable "function f() \x7b new T < > \x7d").overflows newTable {} forest e =
        true := exists_of_check (by decide +kernel)
  refine ⟨by decide +kernel, forest, e, hforest, he, Code.spanFault?_eq_none_iff.mp hnone, ?_⟩
  exact Code.score_eq_overflow_iff.mpr ⟨hnone, hover⟩

end Cyclomatic
