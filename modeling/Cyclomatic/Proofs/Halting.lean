import Cyclomatic.Proofs.GenericLists
import Cyclomatic.Proofs.Order

/-!
# Where detection ends

Past the last token a code answers with the empty text.  A loop that asks for texts only has to
stop there by itself.  Each loop of detection is given by what one round of it does (`Round`), with
jumps to bracket partners as they stand in the table of partners.

All loops leave with the answers of their functions, whatever the words of the language are
(`Code.searchesEnd`), except the search for the end of markers.  That one is endless exactly if the
empty text is a marker and all tokens left are markers too (`Code.endless_markerRound_iff`).  A loop
that looks for generic lists is aborted if the depth of one leaves its range.

So detection goes on forever exactly if the walk comes to a token where an endless search starts,
and is aborted exactly if it looks for a generic list that leaves its range (`detect_halts`).  A
table with an empty marker is accepted (`detect_emptyMarker`), and so is one in which `<` is a
letter.
-/

namespace Cyclomatic

/-! ## Rounds of a loop -/

/-- What one round of a loop does. -/
inductive Round (σ ρ : Type) where
  /-- Go on with a new state. -/
  | again (s : σ)
  /-- Leave with a result. -/
  | leave (r : ρ)

section

variable {σ ρ : Type} {round : σ → Round σ ρ} {s t : σ} {r : ρ}

/-- The loop leaves after a number of rounds that go on. -/
inductive Leaves (round : σ → Round σ ρ) : Nat → σ → ρ → Prop where
  | now {s : σ} {r : ρ} : round s = .leave r → Leaves round 0 s r
  | later {n : Nat} {s t : σ} {r : ρ} :
      round s = .again t → Leaves round n t r → Leaves round (n + 1) s r

/-- The loop leaves after a bounded number of rounds. -/
def LeavesWithin (round : σ → Round σ ρ) (bound : Nat) (s : σ) (r : ρ) : Prop :=
  ∃ n ≤ bound, Leaves round n s r

/-- The loop never leaves. -/
def Endless (round : σ → Round σ ρ) (s : σ) : Prop := ∀ n r, ¬Leaves round n s r

/-- A loop that leaves in its first round leaves within any bound. -/
theorem LeavesWithin.now {bound : Nat} (h : round s = .leave r) : LeavesWithin round bound s r :=
  ⟨0, Nat.zero_le bound, .now h⟩

/-- Another round costs one. -/
theorem LeavesWithin.later {b bound : Nat} (h : round s = .again t) (hlt : b < bound)
    (ht : LeavesWithin round b t r) : LeavesWithin round bound s r := by
  obtain ⟨n, hn, hleaves⟩ := ht
  exact ⟨n + 1, by omega, .later h hleaves⟩

/-- A loop is endless if it goes on from all states that it comes to. -/
theorem endless_of_forall {next : σ → σ} {P : σ → Prop}
    (h : ∀ s, P s → round s = .again (next s) ∧ P (next s)) (hs : P s) : Endless round s := by
  intro n r hleaves
  induction hleaves with
  | now hround =>
    rw [(h _ hs).1] at hround
    cases hround
  | later hround _ ih =>
    obtain ⟨hagain, hnext⟩ := h _ hs
    rw [hagain] at hround
    cases hround
    exact ih hnext

end

namespace Code

variable (code : Code) (rules : SignatureRules)

/-! ## One round of each search

A search that looks for generic lists leaves with a fault once the depth of one leaves its range.
-/

/-- The answer of a search that looks for generic lists at the given tokens. -/
def within {α : Type} (tokens : List Nat) (answer : α) : Except Fault α :=
  if tokens.any code.underflows then .error .overflow else .ok answer

/-- A generic list: a token after its first one, with the angles that are open. -/
def anglesRound (first : Nat) : Nat × Nat → Round (Nat × Nat) (Except Fault (Option Nat))
  | (depth, k) =>
    if k < code.size ∧ k - first < longestAngles then
      if code.isOp k "<" then .again (depth + 1, k + 1)
      else if code.isOp k ">" then
        if depth = 0 then .leave (.error .overflow)
        else if depth - 1 = 0 then .leave (.ok (some (k + 1))) else .again (depth - 1, k + 1)
      else if code.opensBracket k then
        match code.partner? k with
        | some close => .again (depth, close + 1)
        | none => .leave (.ok none)
      else if code.closesBracket k || code.isPunct k ";" then .leave (.ok none)
      else if code.isOp k "&&" || code.isOp k "||" then .leave (.ok none)
      else .again (depth, k + 1)
    else .leave (.ok none)

/-- A type: whether a name or group must come next, and the token. -/
def typeRound : Bool × Nat → Round (Bool × Nat) (Except Fault Nat)
  | (atom, j) =>
    if j < code.size then
      if atom then
        if code.isWord j || code.isKind j .stringLiteral || code.isKind j .number then
          .again (false, j + 1)
        else if code.isPunct j "(" || code.isPunct j "[" then
          match code.partner? j with
          | some close =>
            if code.text (close + 1) == "->" || code.text (close + 1) == "=>" then
              .again (true, close + 2)
            else .again (false, close + 1)
          | none => .leave (.ok j)
        else if code.isOp j "|" || code.isOp j "&" then .again (true, j + 1)
        else .leave (.ok j)
      else
        let t := code.text j
        if t == "." || t == "|" || t == "&" then .again (true, j + 1)
        else if t == "<" then
          match code.skipAngles j with
          | .ok (some after) => .again (false, after)
          | .ok none => .leave (.ok j)
          | .error fault => .leave (.error fault)
        else if t == "?" || t == "!" then .again (false, j + 1)
        else if code.isPunct j "[" then
          match code.partner? j with
          | some close => .again (false, close + 1)
          | none => .leave (.ok j)
        else .leave (.ok j)
    else .leave (.ok j)

/-- A clause: one type and what divides it from the next. -/
def clauseRound (j : Nat) : Round Nat (Except Fault Nat) :=
  match code.within (code.typeAngles true j) (code.skipType true j) with
  | .ok k => if code.text k = "," ∨ code.text k = ":" then .again (k + 1) else .leave (.ok k)
  | .error fault => .leave (.error fault)

/-- Clauses: a keyword with the clause behind it. -/
def clausesRound (j : Nat) : Round Nat (Except Fault Nat) :=
  if code.isWordIn j rules.clauseKeywords then
    match code.within (code.clauseAngles (j + 1)) (code.skipClause (j + 1)) with
    | .ok k => .again k
    | .error fault => .leave (.error fault)
  else .leave (.ok j)

/-- Return types without separator: a token or a group of the line. -/
def freeReturnRound (j : Nat) : Round Nat Nat :=
  if j < code.size ∧ code.afterBreak j = false then
    if rules.typeBraces.contains (code.text j) && code.isPunct (j + 1) "\x7b" then
      .again ((code.partner? (j + 1)).elim code.size (· + 1))
    else if code.isPunct j "(" || code.isPunct j "[" then
      .again ((code.partner? j).elim code.size (· + 1))
    else if code.isPunct j "\x7b" || code.closesBracket j || code.isPunct j ";" ||
        code.isPunct j "," then .leave j
    else if code.isOp j "=" || code.isOp j ":=" then .leave j
    else .again (j + 1)
  else .leave j

/-- A name behind receivers: the receivers so far and the token of the next name. -/
def receiversRound :
    List String × Nat → Round (List String × Nat) (Except Fault (List String × Nat))
  | (chain, name) =>
    match code.within (genericAngles rules (name + 1)) (code.afterReceiver rules name) with
    | .ok n =>
      if code.isPunct n "." && code.isKind (n + 1) .identifier then
        .again (chain ++ [code.text name], n + 1)
      else .leave (.ok (chain, name))
    | .error fault => .leave (.error fault)

/-- A receiver in parentheses: a token before the closing one, with the last identifier so far. -/
def receiverTypeRound (close : Nat) :
    Nat × Option String → Round (Nat × Option String) (Option String)
  | (k, last) =>
    if k < close then
      if code.isPunct k "[" then .again ((code.partner? k).getD close + 1, last)
      else .again (k + 1, if code.isKind k .identifier then some (code.text k) else last)
    else .leave last

/-- Modifiers: one word. -/
def modifiersRound (j : Nat) : Round Nat Nat :=
  if code.isWordIn j rules.modifiers then .again (j + 1) else .leave j

/-- Markers: one text, also past the last token. -/
def markerRound (j : Nat) : Round Nat Nat :=
  if rules.introducerMarkers.contains (code.text j) then .again (j + 1) else .leave j

/-- The head of a container: a token or group before its brace. -/
def containerRound (j : Nat) : Round Nat (Option Nat) :=
  if j < code.size then
    if code.isPunct j "\x7b" then .leave (some j)
    else if code.isPunct j "(" || code.isPunct j "[" then
      match code.partner? j with
      | some close => .again (close + 1)
      | none => .leave none
    else if code.closesBracket j || code.isPunct j ";" || code.isOp j "=" then .leave none
    else if code.isWordIn j rules.introducers || code.isWordIn j rules.containerKeywords then
      .leave none
    else .again (j + 1)
  else .leave none

/-- An opening angle, backward: the angles that are open and the token. -/
def angleOpenRound : Nat × Nat → Round (Nat × Nat) (Except Fault (Option Nat))
  | (depth, j) =>
    let t := code.text j
    if t == "<" && depth == 0 then .leave (.error .overflow)
    else if t == "<" && depth - 1 == 0 then .leave (.ok (some j))
    else if ["\x7b", "\x7d", ";", "(", ")"].contains t || j == 0 || code.afterBreak j then
      .leave (.ok none)
    else .again (if t == ">" then depth + 1 else if t == "<" then depth - 1 else depth, j - 1)

/-- The start of a signature, backward: the token before, or a generic list that ends there. -/
def startRound (s : Nat) : Round Nat Nat :=
  if s = 0 ∨ code.afterBreak s then .leave s
  else
    match if code.text (s - 1) == ">" then code.angleOpen? 0 (s - 1) else none with
    | some o => .again o
    | none => if code.leadsSignature rules (s - 1) then .again (s - 1) else .leave s

/-! ## Searches that leave

The cases are those of the functions.  A jump over a group comes nearer to the end, since the
partner of an opener stands after it.
-/

variable {code rules}

/-- The partner of an opener is the closer after it. -/
theorem Paired.partner?_eq_closer? (hp : code.Paired) {i : Nat} {b : Bracket}
    (hb : code.isPunct i b.opening = true) : code.partner? i = code.closer? i := by
  cases h : code.partner? i with
  | none => rw [closer?, h]; rfl
  | some j => exact (hp.closer?_of_opening hb h).1.symm

theorem Paired.partner?_of_group (hp : code.Paired) {i : Nat}
    (h : (code.isPunct i "(" || code.isPunct i "[") = true) :
    code.partner? i = code.closer? i := by
  rcases Bool.or_eq_true_iff.mp h with h | h
  · exact hp.partner?_eq_closer? (b := .round) h
  · exact hp.partner?_eq_closer? (b := .square) h

theorem Paired.partner?_of_opensBracket (hp : code.Paired) {i : Nat}
    (h : code.opensBracket i = true) : code.partner? i = code.closer? i := by
  obtain ⟨t, ht, hopens⟩ := (Option.any_eq_true ..).mp h
  obtain ⟨b, hb⟩ := Option.isSome_iff_exists.mp hopens
  refine hp.partner?_eq_closer? (b := b) ((Option.any_eq_true ..).mpr ⟨t, ht, ?_⟩)
  exact Token.opens?_iff.mp hb

/-- The first list decides, and then those behind it. -/
theorem within_append {α : Type} (ts us : List Nat) (x : α) :
    code.within (ts ++ us) x =
      if ts.any code.underflows then .error .overflow else code.within us x := by
  unfold within
  rw [List.any_append]
  cases ts.any code.underflows <;> rfl

/-- The walk over a generic list leaves with its answer, within the tokens that are left. -/
theorem anglesRound_leaves (hp : code.Paired) (first depth k : Nat) :
    LeavesWithin (code.anglesRound first) (code.size - k) (depth, k)
      (code.anglesFrom first depth k) := by
  fun_induction code.anglesFrom first depth k
  case case6 hopens close hclose _ ih =>
    have hpartner := hp.partner?_of_opensBracket hopens
    exact .later (by grind [anglesRound]) (by omega) ih
  case case7 hopens hclose =>
    have hpartner := hp.partner?_of_opensBracket hopens
    exact .now (by grind [anglesRound])
  case case2 ih | case5 ih | case10 ih => exact .later (by grind [anglesRound]) (by omega) ih
  case case1 | case3 | case4 | case8 | case9 | case11 => exact .now (by grind [anglesRound])

/-- An answer is within range if no list on the way takes its depth out of range. -/
theorem within_cons {α : Type} (t : Nat) (ts : List Nat) (x : α) :
    code.within (t :: ts) x =
      if code.underflows t then .error .overflow else code.within ts x := by
  unfold within
  rw [List.any_cons]
  cases code.underflows t <;> rfl

theorem typeRound_leaves (hp : code.Paired) (atom : Bool) (j : Nat) :
    LeavesWithin code.typeRound (code.size - j) (atom, j)
      (code.within (code.typeAngles atom j) (code.skipType atom j)) := by
  -- The type expression ends here, and no list was looked for.
  have hend {atom : Bool} {j : Nat} (hround : code.typeRound (atom, j) = .leave (.ok j))
      (hskip : code.skipType atom j = j) : LeavesWithin code.typeRound (code.size - j)
        (atom, j) (code.within [] (code.skipType atom j)) := by
    rw [hskip]
    exact .now hround
  -- The type expression goes on, and no list was looked for.
  have hnext {atom atom' : Bool} {j j' : Nat} {lists : List Nat}
      (ih : LeavesWithin code.typeRound (code.size - j') (atom', j')
        (code.within lists (code.skipType atom' j')))
      (hround : code.typeRound (atom, j) = .again (atom', j'))
      (hskip : code.skipType atom j = code.skipType atom' j')
      (hlt : code.size - j' < code.size - j) : LeavesWithin code.typeRound (code.size - j)
        (atom, j) (code.within lists (code.skipType atom j)) := by
    rw [hskip]
    exact .later hround hlt ih
  fun_induction code.typeAngles atom j
  case case1 ih | case5 ih | case7 ih | case10 ih =>
    exact hnext ih (by grind [typeRound]) (by grind [skipType]) (by omega)
  case case2 hopens close hclose _ _ ih | case3 hopens close hclose _ _ ih =>
    have hpartner := hp.partner?_of_group hopens
    exact hnext ih (by grind [typeRound]) (by grind [skipType]) (by omega)
  case case4 hopens hclose =>
    have hpartner := hp.partner?_of_group hopens
    exact hend (by grind [typeRound]) (by grind [skipType])
  case case8 atom j _ hatom _ _ hangle after hafter _ ih =>
    have hskip : code.skipType atom j = code.skipType false after := by grind [skipType]
    have hangles := code.skipAngles_eq j
    rw [hskip, within_cons]
    split
    · exact .now (by grind [typeRound])
    · exact .later (by grind [typeRound]) (by omega) ih
  case case9 atom j _ hatom _ _ hangle hafter =>
    have hskip : code.skipType atom j = j := by grind [skipType]
    have hangles := code.skipAngles_eq j
    rw [hskip, within_cons]
    exact .now (by grind [typeRound, within])
  case case11 hopens close hclose _ ih =>
    have hpartner := hp.partner?_eq_closer? (b := .square) hopens
    exact hnext ih (by grind [typeRound]) (by grind [skipType]) (by omega)
  case case12 hopens hclose =>
    have hpartner := hp.partner?_eq_closer? (b := .square) hopens
    exact hend (by grind [typeRound]) (by grind [skipType])
  case case6 | case13 | case14 => exact hend (by grind [typeRound]) (by grind [skipType])

theorem clauseRound_leaves (j : Nat) :
    LeavesWithin code.clauseRound (code.size - j) j
      (code.within (code.clauseAngles j) (code.skipClause j)) := by
  fun_induction code.clauseAngles j with
  | case1 j k h hle hlt ih =>
    rw [skipClause, dif_pos h, within_append]
    split
    · rename_i hout
      exact .now (by rw [clauseRound, within, if_pos hout])
    · rename_i hin
      refine .later ?_ (by omega) ih
      rw [clauseRound, within, if_neg hin]
      exact if_pos h
  | case2 j k h =>
    rw [skipClause, dif_neg h]
    exact .now (by grind [clauseRound, within])

theorem clausesRound_leaves (j : Nat) :
    LeavesWithin (code.clausesRound rules) (code.size - j) j
      (code.within (code.clausesAngles rules j) (code.skipClauses rules j)) := by
  fun_induction code.clausesAngles rules j with
  | case1 j h hle hlt ih =>
    rw [skipClauses, dif_pos h, within_append]
    split
    · rename_i hout
      exact .now (by rw [clausesRound, if_pos h, within, if_pos hout])
    · rename_i hin
      exact .later (by rw [clausesRound, if_pos h, within, if_neg hin]) (by omega) ih
  | case2 j h =>
    rw [skipClauses, dif_neg h]
    exact .now (if_neg h)

theorem freeReturnRound_leaves (hp : code.Paired) (j : Nat) :
    LeavesWithin (code.freeReturnRound rules) (code.size - j) j (code.skipFreeReturn rules j) := by
  -- A group without partner sends the search to the end of the code.
  have hend : LeavesWithin (code.freeReturnRound rules) 0 code.size code.size :=
    .now (if_neg fun h => Nat.lt_irrefl _ h.1)
  fun_induction code.skipFreeReturn rules j
  case case2 hopens close hclose _ ih =>
    simp only [Bool.and_eq_true] at hopens
    have hpartner := hp.partner?_eq_closer? (b := .curly) hopens.2
    exact .later (by grind [freeReturnRound]) (by omega) ih
  case case3 hopens hclose =>
    simp only [Bool.and_eq_true] at hopens
    have hpartner := hp.partner?_eq_closer? (b := .curly) hopens.2
    exact .later (by grind [freeReturnRound]) (by omega) hend
  case case4 hopens close hclose _ ih =>
    have hpartner := hp.partner?_of_group hopens
    exact .later (by grind [freeReturnRound]) (by omega) ih
  case case5 hopens hclose =>
    have hpartner := hp.partner?_of_group hopens
    exact .later (by grind [freeReturnRound]) (by omega) hend
  case case8 ih => exact .later (by grind [freeReturnRound]) (by omega) ih
  case case1 | case6 | case7 | case9 => exact .now (by grind [freeReturnRound])

theorem receiversRound_leaves (chain : List String) (name : Nat) :
    LeavesWithin (code.receiversRound rules) (code.size - name) (chain, name)
      (code.within (code.chainAngles rules name)
        (chain ++ (code.receiverChain rules name).1, (code.receiverChain rules name).2)) := by
  fun_induction code.chainAngles rules name generalizing chain with
  | case1 name n h hlt hsize ih =>
    have ih := ih (chain ++ [code.text name])
    have hchain : code.receiverChain rules name =
        (code.text name :: (code.receiverChain rules (n + 1)).1,
          (code.receiverChain rules (n + 1)).2) := by
      rw [receiverChain, dif_pos h]
    rw [List.append_assoc, List.singleton_append] at ih
    rw [hchain, within_append]
    split
    · rename_i hout
      exact .now (by rw [receiversRound, within, if_pos hout])
    · rename_i hin
      refine .later ?_ (by omega) ih
      rw [receiversRound, within, if_neg hin]
      exact if_pos h
  | case2 name n h =>
    rw [receiverChain, dif_neg h, List.append_nil]
    exact .now (by grind [receiversRound, within])

theorem receiverTypeRound_leaves (hp : code.Paired) (close k : Nat) (last : Option String) :
    LeavesWithin (code.receiverTypeRound close) (close - k) (k, last)
      (code.lastIdentifier? close k last) := by
  fun_induction code.lastIdentifier? close k last with
  | case1 k last hk hopens c hclose hlt ih =>
    have hpartner := hp.partner?_eq_closer? (b := .square) hopens
    exact .later (by grind [receiverTypeRound]) (by omega) ih
  | case2 k last hk hopens hclose =>
    -- Without a partner the search goes on after the closing parenthesis.
    have hpartner := hp.partner?_eq_closer? (b := .square) hopens
    have hend : LeavesWithin (code.receiverTypeRound close) 0 (close + 1, last) last :=
      .now (if_neg (by omega))
    exact .later (by grind [receiverTypeRound]) (by omega) hend
  | case3 k last hk hopens ih => exact .later (by grind [receiverTypeRound]) (by omega) ih
  | case4 k last hk => exact .now (if_neg hk)

theorem modifiersRound_leaves (j : Nat) :
    LeavesWithin (code.modifiersRound rules) (code.size - j) j (code.skipModifiers rules j) := by
  fun_induction code.skipModifiers rules j with
  | case1 j h hlt ih => exact .later (if_pos h) (by omega) ih
  | case2 j h => exact .now (if_neg h)

/-- The search for the brace of a type leaves with its answer. -/
theorem containerRound_leaves (hp : code.Paired) (j : Nat) :
    LeavesWithin (code.containerRound rules) (code.size - j) j (code.containerBrace? rules j) := by
  fun_induction code.containerBrace? rules j
  case case2 hopens close hclose _ ih =>
    have hpartner := hp.partner?_of_group hopens
    exact .later (by grind [containerRound]) (by omega) ih
  case case3 hopens hclose =>
    have hpartner := hp.partner?_of_group hopens
    exact .now (by grind [containerRound])
  case case6 ih => exact .later (by grind [containerRound]) (by omega) ih
  case case1 | case4 | case5 | case7 => exact .now (by grind [containerRound])

/-- The depth stays in its range if an angle is open, or the search starts at a closing angle. -/
theorem angleOpenRound_leaves {depth j : Nat} (h : 0 < depth ∨ code.text j = ">") :
    LeavesWithin code.angleOpenRound j (depth, j) (.ok (code.angleOpen? depth j)) := by
  fun_induction code.angleOpen? depth j with
  | case1 depth hopen => exact .now (by grind [angleOpenRound])
  | case2 depth hopen => exact .now (by grind [angleOpenRound])
  | case3 depth p _ hopen => exact .now (by grind [angleOpenRound])
  | case4 depth p _ hopen hstop => exact .now (by grind [angleOpenRound])
  | case5 depth p _ hopen hstop ih =>
    exact .later (by grind [angleOpenRound]) p.lt_succ_self (ih (by grind))

/-- The walk back to the start of a signature leaves with its answer. -/
theorem startRound_leaves (s : Nat) :
    LeavesWithin (code.startRound rules) s s (code.signatureStart rules s) := by
  fun_induction code.signatureStart rules s with
  | case1 | case2 | case5 => exact .now (by grind [startRound])
  | case3 p _ o ho hle ih => exact .later (by grind [startRound]) (by omega) ih
  | case4 p _ _ _ ih => exact .later (by grind [startRound]) p.lt_succ_self ih

/-! ## Markers -/

theorem text_of_size_le {j : Nat} (h : code.size ≤ j) : code.text j = "" := by
  by_contra hne
  exact Nat.not_lt_of_le h (code.lt_size_of_text_ne hne)

/-- Markers go on without end: the tokens from `j` on are markers, and so is the text past them. -/
def MarkersOnly (code : Code) (rules : SignatureRules) (j : Nat) : Prop :=
  "" ∈ rules.introducerMarkers ∧
    ∀ k, j ≤ k → k < code.size → code.text k ∈ rules.introducerMarkers

theorem MarkersOnly.mem {j : Nat} (h : code.MarkersOnly rules j) :
    code.text j ∈ rules.introducerMarkers := by
  by_cases hj : j < code.size
  · exact h.2 j (Nat.le_refl j) hj
  · rw [text_of_size_le (Nat.le_of_not_lt hj)]
    exact h.1

theorem MarkersOnly.succ {j : Nat} (h : code.MarkersOnly rules j) :
    code.MarkersOnly rules (j + 1) :=
  ⟨h.1, fun k hk => h.2 k (Nat.le_of_succ_le hk)⟩

/-- The search for the end of markers leaves, or the markers have no end. -/
theorem skipMarkers_cases (code : Code) (rules : SignatureRules) (j : Nat) :
    (∃ k, code.skipMarkers rules j = .ok k ∧
      LeavesWithin (code.markerRound rules) (code.size - j) j k) ∨
    (code.skipMarkers rules j = .error .endlessMarkers ∧ code.MarkersOnly rules j) := by
  fun_induction code.skipMarkers rules j with
  | case1 j hj h ih =>
    rcases ih with ⟨k, hk, hleaves⟩ | ⟨herror, hempty, hall⟩
    · exact .inl ⟨k, hk, .later (if_pos h) (by omega) hleaves⟩
    · refine .inr ⟨herror, hempty, fun k hle hlt => ?_⟩
      rcases Nat.eq_or_lt_of_le hle with rfl | hle
      · exact List.contains_iff_mem.mp h
      · exact hall k hle hlt
  | case2 j hj h => exact .inl ⟨j, rfl, .now (if_neg h)⟩
  | case3 j hj h =>
    exact .inr ⟨rfl, List.contains_iff_mem.mp h, fun k hle hlt => absurd (hle.trans_lt hlt) hj⟩
  | case4 j hj h =>
    rw [← text_of_size_le (Nat.le_of_not_lt hj)] at h
    exact .inl ⟨j, rfl, .now (if_neg h)⟩

/-- Markers that end are left within the tokens that are left. -/
theorem skipMarkers_leaves {j k : Nat} (h : code.skipMarkers rules j = .ok k) :
    LeavesWithin (code.markerRound rules) (code.size - j) j k := by
  rcases code.skipMarkers_cases rules j with ⟨k', hk', hleaves⟩ | ⟨herror, -⟩
  · rw [h] at hk'
    cases hk'
    exact hleaves
  · rw [h] at herror
    cases herror

/-- The search for the end of markers is endless exactly if nothing but markers is left. -/
theorem endless_markerRound_iff (code : Code) (rules : SignatureRules) (j : Nat) :
    Endless (code.markerRound rules) j ↔ code.MarkersOnly rules j := by
  constructor
  · intro h
    rcases code.skipMarkers_cases rules j with ⟨k, -, n, -, hleaves⟩ | ⟨-, hmarkers⟩
    · exact absurd hleaves (h n k)
    · exact hmarkers
  · exact endless_of_forall fun k hk => ⟨if_pos (List.contains_iff_mem.mpr hk.mem), hk.succ⟩

/-- The search for the end of markers has no answer exactly if it is endless. -/
theorem skipMarkers_error_iff {j : Nat} {fault : Fault} :
    code.skipMarkers rules j = .error fault ↔
      fault = .endlessMarkers ∧ Endless (code.markerRound rules) j := by
  rw [endless_markerRound_iff]
  rcases code.skipMarkers_cases rules j with ⟨k, hk, n, -, hleaves⟩ | ⟨herror, hmarkers⟩
  · rw [hk, ← endless_markerRound_iff]
    exact ⟨nofun, fun h => absurd hleaves (h.2 n k)⟩
  · rw [herror, Except.error.injEq, eq_comm]
    exact (and_iff_left hmarkers).symm

/-- Where the search for the end of markers starts in a binding of an introduced function. -/
def arrowMarkers? (code : Code) (rules : SignatureRules) (i : Nat) : Option Nat :=
  let equals := code.skipReturnType rules (i + 2)
  let j := code.skipModifiers rules (equals + 1)
  if code.isKind (i + 1) .identifier && code.text equals == "=" &&
      code.isWordIn j rules.introducers then some (j + 1)
  else none

/-- Where the search for the end of markers starts, if the shape at a token has one. -/
def markersFrom? (code : Code) (rules : SignatureRules) (scopes : List Scope) (i : Nat) :
    Option Nat :=
  if (code.compactForm? rules scopes i).isSome then none
  else if code.isWordIn i rules.introducers then some (i + 1)
  else if code.isWordIn i rules.arrowBinders then code.arrowMarkers? rules i
  else none

theorem map_eq_error_iff {ε α β : Type} {x : Except ε α} {f : α → β} {e : ε} :
    x.map f = .error e ↔ x = .error e := by
  cases x with
  | ok a => exact ⟨nofun, nofun⟩
  | error d => exact ⟨fun h => congrArg _ (Except.error.inj h), fun h => h ▸ rfl⟩

theorem arrowForm_error_iff {i : Nat} {fault : Fault} :
    code.arrowForm rules i = .error fault ↔
      ∃ j, code.arrowMarkers? rules i = some j ∧ code.skipMarkers rules j = .error fault := by
  have hcond : (!code.isKind (i + 1) .identifier ||
      code.text (code.skipReturnType rules (i + 2)) != "=") =
      !(code.isKind (i + 1) .identifier &&
        code.text (code.skipReturnType rules (i + 2)) == "=") := by
    rw [Bool.not_and, bne]
  simp only [arrowForm, arrowMarkers?, hcond]
  cases code.isKind (i + 1) .identifier &&
    code.text (code.skipReturnType rules (i + 2)) == "=" with
  | false => simp
  | true =>
    simp only [Bool.not_true, Bool.false_eq_true, if_false, Bool.true_and]
    split
    · simp [map_eq_error_iff]
    · simp

/-- Looking for a shape fails exactly if its search for the end of markers does. -/
theorem shapeAt_error_iff {scopes : List Scope} {i : Nat} {fault : Fault} :
    code.shapeAt rules scopes i = .error fault ↔
      ∃ j, code.markersFrom? rules scopes i = some j ∧
        code.skipMarkers rules j = .error fault := by
  unfold shapeAt markersFrom?
  cases hcompact : code.compactForm? rules scopes i with
  | some s => simp
  | none =>
    simp only [Option.isSome_none, Bool.false_eq_true, if_false]
    split
    · simp [introducedForm, map_eq_error_iff]
    · split
      · exact arrowForm_error_iff
      · split <;> simp

/-- Looking for a signature fails exactly if the depth of a generic list leaves its range or, where
it never does, if the search for the end of markers is endless. -/
theorem signatureAt_error_iff {scopes : List Scope} {i : Nat} {fault : Fault} :
    code.signatureAt rules scopes i = .error fault ↔
      (fault = .overflow ∧ ∃ t ∈ code.signatureAngles rules scopes i, code.underflows t = true) ∨
      (fault = .endlessMarkers ∧
        (∀ t ∈ code.signatureAngles rules scopes i, code.underflows t = false) ∧
        ∃ j, code.markersFrom? rules scopes i = some j ∧ Endless (code.markerRound rules) j) := by
  unfold signatureAt
  split
  · rename_i hout
    obtain ⟨t, ht, hunder⟩ := List.any_eq_true.mp hout
    constructor
    · intro h
      exact .inl ⟨(Except.error.inj h).symm, t, ht, hunder⟩
    · rintro (⟨rfl, -⟩ | ⟨-, hin, -⟩)
      · rfl
      · rw [hin t ht] at hunder
        cases hunder
  · rename_i hin
    rw [List.any_eq_true] at hin
    rw [shapeAt_error_iff]
    constructor
    · rintro ⟨j, hj, hmarkers⟩
      obtain ⟨rfl, hendless⟩ := skipMarkers_error_iff.mp hmarkers
      refine .inr ⟨rfl, fun t ht => ?_, j, hj, hendless⟩
      exact Bool.eq_false_iff.mpr fun hunder => hin ⟨t, ht, hunder⟩
    · rintro (⟨-, hout⟩ | ⟨rfl, -, j, hj, hendless⟩)
      · exact absurd hout hin
      · exact ⟨j, hj, skipMarkers_error_iff.mpr ⟨rfl, hendless⟩⟩

end Code

/-! ## The walk -/

namespace Walk

variable {code : Code} {rules : SignatureRules}

/-- The walk: a token with what was found before it. -/
def round (code : Code) (rules : SignatureRules) :
    Nat × Walk → Round (Nat × Walk) (Except Fault Forest)
  | (i, w) =>
    if i < code.size then
      match w.step code rules i with
      | .ok (w', next) => .again (next, w')
      | .error fault => .leave (.error fault)
    else .leave (.ok w.forest)

/-- Each step of the walk goes on at a later token. -/
theorem lt_step (hp : code.Paired) {w w' : Walk} {i next : Nat}
    (h : w.step code rules i = .ok (w', next)) : i < next := by
  rcases step_cases h with ⟨-, rfl⟩ | ⟨s, brace, hs, htail, -, rfl⟩ | ⟨s, hs, htail, -⟩
  · exact Nat.lt_succ_self i
  · have hforward := Code.signatureAt_forward hp hs
    have := hforward.le_name
    have := (hforward.body htail).1
    omega
  · have hforward := Code.signatureAt_forward hp hs
    exact Nat.lt_of_le_of_lt hforward.le_name (hforward.terminated htail)

/-- The walk of detection leaves within the tokens that are left. -/
theorem round_leaves (hp : code.Paired) (i : Nat) (w : Walk) :
    LeavesWithin (round code rules) (code.size - i) (i, w) (go code rules i w) := by
  fun_induction go code rules i w with
  | case1 i w hi w' next hstep ih =>
    have hlt := lt_step hp hstep
    rw [Nat.max_eq_left hlt] at ih ⊢
    exact .later (by simp only [round, if_pos hi, hstep]) (by omega) ih
  | case2 i w hi fault hstep => exact .now (by simp only [round, if_pos hi, hstep])
  | case3 i w hi => exact .now (if_neg hi)

theorem step_error_iff {w : Walk} {i : Nat} {fault : Fault} :
    w.step code rules i = .error fault ↔
      code.signatureAt rules (w.arrive code rules i).scopes i = .error fault :=
  Code.map_eq_error_iff

/-- What the walk finds from a point on does not depend on where it began. -/
theorem Run.go_eq {a b : Nat × Walk} (h : Run code rules a b) :
    go code rules a.1 a.2 = go code rules b.1 b.2 := by
  induction h with
  | refl => rfl
  | @tail b c _ hnext ih =>
    obtain ⟨hb, next, hstep, hc⟩ := hnext
    rw [ih, go, dif_pos hb, hstep, hc]

/-- The walk fails exactly if looking for a signature does at a token that it comes to. -/
theorem go_error_iff {i : Nat} {w : Walk} {fault : Fault} :
    go code rules i w = .error fault ↔
      ∃ k w', Run code rules (i, w) (k, w') ∧ k < code.size ∧
        code.signatureAt rules (w'.arrive code rules k).scopes k = .error fault := by
  constructor
  · intro h
    fun_induction go code rules i w with
    | case1 i w hi w' next hstep ih =>
      obtain ⟨k, w'', hrun, hk⟩ := ih h
      exact ⟨k, w'', .head ⟨hi, next, hstep, rfl⟩ hrun, hk⟩
    | case2 i w hi fault' hstep =>
      obtain rfl := Except.error.inj h
      exact ⟨i, w, .refl, hi, step_error_iff.mp hstep⟩
    | case3 i w hi => cases h
  · rintro ⟨k, w', hrun, hk, hs⟩
    rw [Run.go_eq hrun, go, dif_pos hk, step_error_iff.mpr hs]

/-- A generic list is looked for here, at a token that the walk comes to. -/
def LooksAt (code : Code) (rules : SignatureRules) (t : Nat) : Prop :=
  ∃ i w, Run code rules (0, {}) (i, w) ∧ i < code.size ∧
    t ∈ code.signatureAngles rules (w.arrive code rules i).scopes i

/-- A search for the end of markers starts here, at a token that the walk comes to.  No generic list
before it leaves its range. -/
def Searches (code : Code) (rules : SignatureRules) (j : Nat) : Prop :=
  ∃ i w, Run code rules (0, {}) (i, w) ∧ i < code.size ∧
    (∀ t ∈ code.signatureAngles rules (w.arrive code rules i).scopes i,
      code.underflows t = false) ∧
    code.markersFrom? rules (w.arrive code rules i).scopes i = some j

end Walk

/-- Detection fails exactly if the walk looks for a generic list whose depth leaves its range, or
starts a search that is endless. -/
theorem detect_error_iff {l : Language} {code : Code} {fault : Fault} :
    detect l code = .error fault ↔
      (fault = .overflow ∧ ∃ t, Walk.LooksAt code l.signatures t ∧ code.underflows t = true) ∨
      (fault = .endlessMarkers ∧
        ∃ j, Walk.Searches code l.signatures j ∧ Endless (code.markerRound l.signatures) j) := by
  rw [detect, Walk.go_error_iff]
  simp only [Code.signatureAt_error_iff]
  constructor
  · rintro ⟨i, w, hrun, hi, ⟨hfault, t, ht, hunder⟩ | ⟨hfault, hin, j, hj, hendless⟩⟩
    · exact .inl ⟨hfault, t, ⟨i, w, hrun, hi, ht⟩, hunder⟩
    · exact .inr ⟨hfault, j, ⟨i, w, hrun, hi, hin, hj⟩, hendless⟩
  · rintro (⟨hfault, t, ⟨i, w, hrun, hi, ht⟩, hunder⟩ |
      ⟨hfault, j, ⟨i, w, hrun, hi, hin, hj⟩, hendless⟩)
    · exact ⟨i, w, hrun, hi, .inl ⟨hfault, t, ht, hunder⟩⟩
    · exact ⟨i, w, hrun, hi, .inr ⟨hfault, hin, j, hj, hendless⟩⟩

/-- Detection has an answer exactly if all generic lists that the walk looks for stay in range and
all searches that it starts leave. -/
theorem exists_detect_eq_ok_iff {l : Language} {code : Code} :
    (∃ forest, detect l code = .ok forest) ↔
      (∀ t, Walk.LooksAt code l.signatures t → code.underflows t = false) ∧
        ∀ j, Walk.Searches code l.signatures j → ¬Endless (code.markerRound l.signatures) j := by
  constructor
  · rintro ⟨forest, hforest⟩
    refine ⟨fun t ht => Bool.eq_false_iff.mpr fun hunder => ?_, fun j hj hendless => ?_⟩
    · have herror := detect_error_iff.mpr (.inl ⟨rfl, t, ht, hunder⟩)
      rw [hforest] at herror
      cases herror
    · have herror := detect_error_iff.mpr (.inr ⟨rfl, j, hj, hendless⟩)
      rw [hforest] at herror
      cases herror
  · rintro ⟨hin, hleaves⟩
    cases hdetect : detect l code with
    | ok forest => exact ⟨forest, rfl⟩
    | error fault =>
      rcases detect_error_iff.mp hdetect with ⟨-, t, ht, hunder⟩ | ⟨-, j, hj, hendless⟩
      · rw [hin t ht] at hunder
        cases hunder
      · exact absurd hendless (hleaves j hj)

/-! ## Detection -/

/-- The searches of detection leave with their answers, forward ones after at most as many rounds
as tokens are ahead, backward ones after at most as many as tokens are behind.  Those that look for
generic lists leave with a fault instead if the depth of one leaves its range. -/
structure Code.SearchesEnd (code : Code) (rules : SignatureRules) : Prop where
  /-- Generic lists. -/
  angles : ∀ first depth k, LeavesWithin (code.anglesRound first) (code.size - k) (depth, k)
    (code.anglesFrom first depth k)
  /-- Types. -/
  type : ∀ atom j, LeavesWithin code.typeRound (code.size - j) (atom, j)
    (code.within (code.typeAngles atom j) (code.skipType atom j))
  /-- One clause. -/
  clause : ∀ j, LeavesWithin code.clauseRound (code.size - j) j
    (code.within (code.clauseAngles j) (code.skipClause j))
  /-- All clauses. -/
  clauses : ∀ j, LeavesWithin (code.clausesRound rules) (code.size - j) j
    (code.within (code.clausesAngles rules j) (code.skipClauses rules j))
  /-- Return types without separator. -/
  freeReturn : ∀ j,
    LeavesWithin (code.freeReturnRound rules) (code.size - j) j (code.skipFreeReturn rules j)
  /-- Names behind receivers. -/
  receivers : ∀ name, LeavesWithin (code.receiversRound rules) (code.size - name) ([], name)
    (code.within (code.chainAngles rules name) (code.receiverChain rules name))
  /-- Receivers in parentheses. -/
  receiverType : ∀ close k last,
    LeavesWithin (code.receiverTypeRound close) (close - k) (k, last)
      (code.lastIdentifier? close k last)
  /-- Modifiers. -/
  modifiers : ∀ j,
    LeavesWithin (code.modifiersRound rules) (code.size - j) j (code.skipModifiers rules j)
  /-- Heads of containers. -/
  container : ∀ j,
    LeavesWithin (code.containerRound rules) (code.size - j) j (code.containerBrace? rules j)
  /-- Opening angles, from a closing one or with some open. -/
  angleOpen : ∀ depth j, 0 < depth ∨ code.text j = ">" →
    LeavesWithin code.angleOpenRound j (depth, j) (.ok (code.angleOpen? depth j))
  /-- Starts of signatures. -/
  start : ∀ s, LeavesWithin (code.startRound rules) s s (code.signatureStart rules s)

/-- Every search but that for the end of markers leaves with the answer of its function. -/
theorem Code.searchesEnd {code : Code} (hp : code.Paired) (rules : SignatureRules) :
    code.SearchesEnd rules where
  angles := anglesRound_leaves hp
  type := typeRound_leaves hp
  clause := clauseRound_leaves
  clauses := clausesRound_leaves
  freeReturn := freeReturnRound_leaves hp
  receivers := receiversRound_leaves []
  receiverType := receiverTypeRound_leaves hp
  modifiers := modifiersRound_leaves
  container := containerRound_leaves hp
  angleOpen _ _ := angleOpenRound_leaves
  start := startRound_leaves

/-- What ends in detection. -/
structure DetectionEnds (l : Language) (code : Code) : Prop where
  /-- All searches but the one for the end of markers do. -/
  searches : code.SearchesEnd l.signatures
  /-- The depth of a generic list leaves its range exactly if the walk over the list comes to a
  closing angle with none open. -/
  underflows : ∀ first, code.underflows first = true ↔
    ∃ k, code.AnglesReach first 0 k ∧ k < code.size ∧ k - first < Code.longestAngles ∧
      code.isOp k ">" = true
  /-- The search for the end of markers leaves with its answer if it has one. -/
  markers : ∀ j k, code.skipMarkers l.signatures j = .ok k →
    LeavesWithin (code.markerRound l.signatures) (code.size - j) j k
  /-- It has none exactly if the text past the last token and all tokens left are markers. -/
  endless : ∀ j, Endless (code.markerRound l.signatures) j ↔
    "" ∈ l.signatures.introducerMarkers ∧
      ∀ k, j ≤ k → k < code.size → code.text k ∈ l.signatures.introducerMarkers
  /-- A step of the walk goes on at a later token. -/
  forward : ∀ {w w' : Walk} {i next : Nat},
    w.step code l.signatures i = .ok (w', next) → i < next
  /-- The walk leaves after at most as many steps as there are tokens, with what was found or with
  the fault of a step. -/
  walk : LeavesWithin (Walk.round code l.signatures) code.size (0, {}) (detect l code)
  /-- It is aborted exactly if it looked for a generic list whose depth leaves its range. -/
  aborted : detect l code = .error .overflow ↔
    ∃ t, Walk.LooksAt code l.signatures t ∧ code.underflows t = true
  /-- It goes on forever exactly if it started an endless search. -/
  stuck : detect l code = .error .endlessMarkers ↔
    ∃ j, Walk.Searches code l.signatures j ∧ Endless (code.markerRound l.signatures) j
  /-- Otherwise it has found all functions. -/
  found : (∃ forest, detect l code = .ok forest) ↔
    (∀ t, Walk.LooksAt code l.signatures t → code.underflows t = false) ∧
      ∀ j, Walk.Searches code l.signatures j → ¬Endless (code.markerRound l.signatures) j
  /-- Without an empty marker, and if only operators have the text `<`, it has always found them. -/
  found_of_markers : "" ∉ l.signatures.introducerMarkers →
    (∀ i, code.text i = "<" → code.isOp i "<" = true) → ∃ forest, detect l code = .ok forest

/-- Detection ends for every table and source, but for two defects.  It goes on forever if the table
has an empty marker and the walk comes to an introducer with nothing but markers behind it.  It is
aborted if the walk looks for a generic list at a token `<` that is no operator, and the list comes
to a closing angle with none open. -/
theorem detect_halts (l : Language) (source : String) :
    DetectionEnds l (Code.ofSource l source) := by
  have hp := Code.paired_ofSource l source
  constructor
  case searches => exact Code.searchesEnd hp l.signatures
  case underflows => exact fun first => Code.underflows_iff
  case markers => exact fun j k hk => Code.skipMarkers_leaves hk
  case endless => exact fun j => Code.endless_markerRound_iff _ _ j
  case forward => exact fun h => Walk.lt_step hp h
  case walk => exact Walk.round_leaves hp 0 {}
  case aborted => simp [detect_error_iff]
  case stuck => simp [detect_error_iff]
  case found => exact exists_detect_eq_ok_iff
  case found_of_markers =>
    intro hempty hangles
    refine exists_detect_eq_ok_iff.mpr ⟨fun t _ => ?_, fun j _ hendless => hempty ?_⟩
    · by_cases htext : (Code.ofSource l source).text t = "<"
      · exact Code.not_underflows_of_isOp hp (hangles t htext)
      · exact Code.not_underflows_of_text htext
    · exact ((Code.endless_markerRound_iff _ _ j).mp hendless).1

/-- Functions after the word `fn`, with the markers of a list between them. -/
def fnTable (markers : List String) : Language where
  id := "toy"
  comments := {}
  strings := {}
  keywords := ["fn"]
  signatures := { introducers := ["fn"], introducerMarkers := markers }

/-- A table with an empty marker is accepted, and the search behind a last introducer is endless. -/
theorem detect_emptyMarker :
    (Registry.builtin.register (fnTable [""])).map (·.lookup? "toy") =
        .ok (some (fnTable [""])) ∧
      detect (fnTable [""]) (Code.ofSource (fnTable [""]) "fn") = .error .endlessMarkers ∧
      Endless ((Code.ofSource (fnTable [""]) "fn").markerRound (fnTable [""]).signatures) 1 := by
  have hsize : (Code.ofSource (fnTable [""]) "fn").size = 1 := by decide +kernel
  have hendless : Endless
      ((Code.ofSource (fnTable [""]) "fn").markerRound (fnTable [""]).signatures) 1 := by
    rw [Code.endless_markerRound_iff]
    exact ⟨List.mem_singleton_self _, fun k hle hlt => absurd hlt (by omega)⟩
  refine ⟨by decide +kernel, detect_error_iff.mpr (.inr ⟨rfl, 1, ?_, hendless⟩), hendless⟩
  exact ⟨0, {}, .refl, by omega, by decide +kernel, by decide +kernel⟩

/-- Functions after the word `fn` with generic lists, where `<` is a letter. -/
def angleTable : Language :=
  { fnTable [] with
    identifierChars := ['<'], signatures := { introducers := ["fn"], generics := true } }

example : (Registry.builtin.register angleTable).map (·.lookup? "toy") = .ok (some angleTable) ∧
    (detect angleTable (Code.ofSource angleTable "fn < >")).map (fun _ => ()) =
      .error .overflow := by
  decide +kernel

end Cyclomatic
