import Cyclomatic.Code.View

/-!
# Bracket pairs are nested

The pairing pass keeps the open brackets on a stack, with indices that fall from the top down.
A closer pairs with a bracket of the stack and drops those above it.  So two pairs never cross:
read in the order of their closers, the later pair opens before the earlier one or after it
(`pairsFrom_nested`).  Every index is in at most one pair, hence the table of partners is the
symmetric closure of the list of pairs (`partnerTable_eq_some`).

`Code.Paired` says that the partners of a code come from its tokens.  It holds for the code of
every source.  The facts about single pairs are stated for such a code: a closer stands after
its opener and has its shape, and pairs are nested or disjoint (`Code.Paired.nested`).
-/

namespace Cyclomatic

/-! ## The pairing pass -/

/-- Two pairs in the order of their closers that do not cross. -/
def Nested (p q : Nat × Nat) : Prop := p.2 < q.2 ∧ (q.1 < p.1 ∨ p.2 < q.1)

/-- The brackets open before index `i` of a list of tokens, innermost first. -/
structure OpenBrackets (tokens : List Token) (i : Nat) (stack : List (Nat × Bracket)) : Prop where
  /-- Inner brackets stand later. -/
  order : stack.Pairwise fun a b => b.1 < a.1
  /-- They stand before the index. -/
  below : ∀ e ∈ stack, e.1 < i
  /-- They open a bracket of their shape. -/
  opens : ∀ e ∈ stack, tokens[e.1]?.bind Token.opens? = some e.2

namespace OpenBrackets

variable {tokens : List Token} {i : Nat} {stack : List (Nat × Bracket)}

theorem nil : OpenBrackets tokens i [] := ⟨.nil, by simp, by simp⟩

theorem succ (h : OpenBrackets tokens i stack) : OpenBrackets tokens (i + 1) stack :=
  ⟨h.order, fun e he => Nat.lt_succ_of_lt (h.below e he), h.opens⟩

theorem sublist (h : OpenBrackets tokens i stack) {stack' : List (Nat × Bracket)}
    (hs : stack'.Sublist stack) : OpenBrackets tokens i stack' :=
  ⟨h.order.sublist hs, fun e he => h.below e (hs.subset he),
    fun e he => h.opens e (hs.subset he)⟩

theorem push (h : OpenBrackets tokens i stack) {t : Token} {b : Bracket}
    (ht : tokens[i]? = some t) (hb : t.opens? = some b) :
    OpenBrackets tokens (i + 1) ((i, b) :: stack) where
  order := List.pairwise_cons.mpr ⟨h.below, h.order⟩
  below e he := by
    cases List.mem_cons.mp he with
    | inl h' => subst h'; exact Nat.lt_succ_self i
    | inr h' => exact Nat.lt_succ_of_lt (h.below e h')
  opens e he := by
    cases List.mem_cons.mp he with
    | inl h' => subst h'; simpa [ht] using hb
    | inr h' => exact h.opens e h'

end OpenBrackets

/-- The bracket that a closer finds on the stack has its shape, and the rest lies below it. -/
theorem dropWhile_shape {stack below : List (Nat × Bracket)} {b b' : Bracket} {o : Nat}
    (h : stack.dropWhile (·.2 != b) = (o, b') :: below) :
    b' = b ∧ ((o, b') :: below).Sublist stack := by
  constructor
  · have hne : stack.dropWhile (·.2 != b) ≠ [] := by rw [h]; exact List.cons_ne_nil _ _
    have hhead := List.head_dropWhile_not (fun e : Nat × Bracket => e.2 != b) hne
    simpa [h] using hhead
  · rw [← h]
    exact (List.dropWhile_suffix _).sublist

/-- What a pair of the pass looks like. -/
structure PairOf (tokens : List Token) (i : Nat) (stack : List (Nat × Bracket))
    (p : Nat × Nat) : Prop where
  /-- The closer is still ahead. -/
  ahead : i ≤ p.2
  /-- The closer is a token. -/
  bound : p.2 < tokens.length
  /-- The opener stands before the closer. -/
  lt : p.1 < p.2
  /-- The opener is on the stack or still ahead. -/
  opener : (∃ b, (p.1, b) ∈ stack) ∨ i ≤ p.1
  /-- Opener and closer have one shape. -/
  shape : ∃ b, tokens[p.1]?.bind Token.opens? = some b ∧ tokens[p.2]?.bind Token.closes? = some b

/-- A token of a list and the tokens after it. -/
theorem drop_eq_cons {α : Type} {xs ys : List α} {x : α} {i : Nat} (h : xs.drop i = x :: ys) :
    xs[i]? = some x ∧ xs.drop (i + 1) = ys := by
  constructor
  · have := congrArg List.head? h
    simpa [List.head?_drop] using this
  · rw [← List.tail_drop, h, List.tail_cons]

/-- A pair of the pass joins an opening bracket and a closing one of its kind. -/
theorem pairsFrom_mem {tokens ts : List Token} {i : Nat} {stack : List (Nat × Bracket)}
    (hts : tokens.drop i = ts) (hs : OpenBrackets tokens i stack) {p : Nat × Nat}
    (hp : p ∈ pairsFrom i stack ts) : PairOf tokens i stack p := by
  fun_induction pairsFrom i stack ts with
  | case1 => simp at hp
  | case2 i stack t ts b hb ih =>
    obtain ⟨ht, hrest⟩ := drop_eq_cons hts
    obtain ⟨hahead, hbound, hlt, hopener, hshape⟩ := ih hrest (hs.push ht hb) hp
    refine ⟨Nat.le_of_succ_le hahead, hbound, hlt, ?_, hshape⟩
    rcases hopener with ⟨b', he⟩ | hle
    · cases List.mem_cons.mp he with
      | inl h' => exact Or.inr (Nat.le_of_eq (congrArg Prod.fst h').symm)
      | inr h' => exact Or.inl ⟨b', h'⟩
    · exact Or.inr (Nat.le_of_succ_le hle)
  | case3 i stack t ts hb hc ih =>
    obtain ⟨hahead, hbound, hlt, hopener, hshape⟩ := ih (drop_eq_cons hts).2 hs.succ hp
    exact ⟨Nat.le_of_succ_le hahead, hbound, hlt, hopener.imp_right Nat.le_of_succ_le, hshape⟩
  | case4 i stack t ts hb b hc hnil ih =>
    obtain ⟨hahead, hbound, hlt, hopener, hshape⟩ := ih (drop_eq_cons hts).2 hs.succ hp
    exact ⟨Nat.le_of_succ_le hahead, hbound, hlt, hopener.imp_right Nat.le_of_succ_le, hshape⟩
  | case5 i stack t ts hb b hc o b' below hfound ih =>
    obtain ⟨ht, hrest⟩ := drop_eq_cons hts
    obtain ⟨rfl, hsub⟩ := dropWhile_shape hfound
    cases List.mem_cons.mp hp with
    | inl h' =>
      subst h'
      have hmem : (o, b') ∈ stack := hsub.subset (List.mem_cons_self ..)
      refine ⟨Nat.le_refl _, (List.getElem?_eq_some_iff.mp ht).1, hs.below _ hmem,
        Or.inl ⟨b', hmem⟩, b', hs.opens _ hmem, ?_⟩
      simpa [ht] using hc
    | inr h' =>
      have hbelow := (List.sublist_cons_self _ _).trans hsub
      obtain ⟨hahead, hbound, hlt, hopener, hshape⟩ := ih hrest (hs.sublist hbelow).succ h'
      refine ⟨Nat.le_of_succ_le hahead, hbound, hlt, ?_, hshape⟩
      rcases hopener with ⟨e, he⟩ | hle
      · exact Or.inl ⟨e, hbelow.subset he⟩
      · exact Or.inr (Nat.le_of_succ_le hle)

/-- The pairs of the pass do not cross. -/
theorem pairsFrom_nested {tokens ts : List Token} {i : Nat} {stack : List (Nat × Bracket)}
    (hts : tokens.drop i = ts) (hs : OpenBrackets tokens i stack) :
    (pairsFrom i stack ts).Pairwise Nested := by
  fun_induction pairsFrom i stack ts with
  | case1 => exact .nil
  | case2 i stack t ts b hb ih =>
    obtain ⟨ht, hrest⟩ := drop_eq_cons hts
    exact ih hrest (hs.push ht hb)
  | case3 i stack t ts hb hc ih => exact ih (drop_eq_cons hts).2 hs.succ
  | case4 i stack t ts hb b hc hnil ih => exact ih (drop_eq_cons hts).2 hs.succ
  | case5 i stack t ts hb b hc o b' below hfound ih =>
    obtain ⟨ht, hrest⟩ := drop_eq_cons hts
    obtain ⟨-, hsub⟩ := dropWhile_shape hfound
    have hbelow := hs.sublist ((List.sublist_cons_self _ _).trans hsub)
    refine List.pairwise_cons.mpr ⟨fun q hq => ?_, ih hrest hbelow.succ⟩
    -- A later opener is below the bracket just closed, or after its closer.
    obtain ⟨hahead, -, -, hopener, -⟩ := pairsFrom_mem hrest hbelow.succ hq
    refine ⟨hahead, hopener.imp ?_ id⟩
    rintro ⟨e, he⟩
    exact (List.pairwise_cons.mp (hs.order.sublist hsub)).1 (q.1, e) he

theorem bracketPairs_mem {tokens : List Token} {p : Nat × Nat} (hp : p ∈ bracketPairs tokens) :
    PairOf tokens 0 [] p :=
  pairsFrom_mem List.drop_zero .nil hp

/-- Of two pairs, one lies inside the other or behind it. -/
theorem bracketPairs_nested (tokens : List Token) : (bracketPairs tokens).Pairwise Nested :=
  pairsFrom_nested List.drop_zero .nil

/-- Pairs are nested or disjoint. -/
theorem bracketPairs_cross {tokens : List Token} {a b c d : Nat}
    (hab : (a, b) ∈ bracketPairs tokens) (hcd : (c, d) ∈ bracketPairs tokens) (hac : a < c)
    (hcb : c < b) : d < b := by
  have hlt := (bracketPairs_mem hcd).lt
  by_cases heq : (a, b) = (c, d)
  · cases heq
    exact absurd hac (Nat.lt_irrefl _)
  · have hcross : Nested (a, b) (c, d) ∨ Nested (c, d) (a, b) :=
      List.Pairwise.forall_of_forall_of_flip
        (R := fun p q => p ≠ q → Nested p q ∨ Nested q p)
        (fun _ _ hne => absurd rfl hne)
        ((bracketPairs_nested tokens).imp fun hpq _ => Or.inl hpq)
        ((bracketPairs_nested tokens).imp fun hpq _ => Or.inr hpq) hab hcd heq
    rcases hcross with ⟨h2, h1 | h1⟩ | ⟨h2, h1 | h1⟩ <;> simp at h1 h2 hlt <;> omega

/-! ## The table of partners -/

/-- The pairs share no index. -/
def Apart (p q : Nat × Nat) : Prop := p.1 ≠ q.1 ∧ p.1 ≠ q.2 ∧ p.2 ≠ q.1 ∧ p.2 ≠ q.2

/-- One entry of the table for each end of a pair. -/
def enterPair (table : Array (Option Nat)) (p : Nat × Nat) : Array (Option Nat) :=
  (table.setIfInBounds p.1 (some p.2)).setIfInBounds p.2 (some p.1)

theorem enterPair_size (table : Array (Option Nat)) (p : Nat × Nat) :
    (enterPair table p).size = table.size := by
  simp [enterPair]

theorem enterPair_other {table : Array (Option Nat)} {p : Nat × Nat} {i : Nat}
    (h1 : p.1 ≠ i) (h2 : p.2 ≠ i) : (enterPair table p)[i]? = table[i]? := by
  rw [enterPair, Array.getElem?_setIfInBounds_ne h2, Array.getElem?_setIfInBounds_ne h1]

theorem enterPair_opener {table : Array (Option Nat)} {p : Nat × Nat} (hlt : p.1 < p.2)
    (hp : p.1 < table.size) : (enterPair table p)[p.1]? = some (some p.2) := by
  rw [enterPair, Array.getElem?_setIfInBounds_ne (Nat.ne_of_gt hlt),
    Array.getElem?_setIfInBounds_self_of_lt hp]

theorem enterPair_closer {table : Array (Option Nat)} {p : Nat × Nat} (hp : p.2 < table.size) :
    (enterPair table p)[p.2]? = some (some p.1) := by
  rw [enterPair, Array.getElem?_setIfInBounds_self_of_lt (by simpa using hp)]

/-- An index in none of the pairs keeps its entry. -/
theorem foldl_enterPair_absent {pairs : List (Nat × Nat)} {i : Nat}
    (h : ∀ p ∈ pairs, p.1 ≠ i ∧ p.2 ≠ i) (table : Array (Option Nat)) :
    (pairs.foldl enterPair table)[i]? = table[i]? := by
  induction pairs generalizing table with
  | nil => rfl
  | cons p pairs ih =>
    have hp := h p (List.mem_cons_self ..)
    rw [List.foldl_cons, ih fun q hq => h q (List.mem_cons_of_mem _ hq), enterPair_other hp.1 hp.2]

/-- Both ends of a pair point at each other. -/
theorem foldl_enterPair_mem {pairs : List (Nat × Nat)} (hpairs : pairs.Pairwise Apart)
    {p : Nat × Nat} (hp : p ∈ pairs) (hlt : p.1 < p.2) (table : Array (Option Nat))
    (hbound : p.2 < table.size) :
    (pairs.foldl enterPair table)[p.1]? = some (some p.2) ∧
      (pairs.foldl enterPair table)[p.2]? = some (some p.1) := by
  induction pairs generalizing table with
  | nil => simp at hp
  | cons q pairs ih =>
    obtain ⟨hq, hrest⟩ := List.pairwise_cons.mp hpairs
    rw [List.foldl_cons]
    cases List.mem_cons.mp hp with
    | inl h =>
      subst h
      -- No later pair touches the ends of this one.
      rw [foldl_enterPair_absent fun r hr => ⟨(hq r hr).1.symm, (hq r hr).2.1.symm⟩,
        foldl_enterPair_absent fun r hr => ⟨(hq r hr).2.2.1.symm, (hq r hr).2.2.2.symm⟩]
      exact ⟨enterPair_opener hlt (Nat.lt_trans hlt hbound), enterPair_closer hbound⟩
    | inr h => exact ih hrest h (enterPair table q) (by rwa [enterPair_size])

/-- The table of partners is the symmetric closure of the list of pairs. -/
theorem partnerTable_eq_some {n : Nat} {pairs : List (Nat × Nat)} (hpairs : pairs.Pairwise Apart)
    (hlt : ∀ p ∈ pairs, p.1 < p.2) (hbound : ∀ p ∈ pairs, p.2 < n) {i j : Nat} :
    (partnerTable n pairs)[i]?.join = some j ↔ (i, j) ∈ pairs ∨ (j, i) ∈ pairs := by
  have hsize : (Array.replicate n (none : Option Nat)).size = n := Array.size_replicate ..
  have hmem : ∀ p ∈ pairs, (partnerTable n pairs)[p.1]? = some (some p.2) ∧
      (partnerTable n pairs)[p.2]? = some (some p.1) := fun p hp =>
    foldl_enterPair_mem hpairs hp (hlt p hp) _ (by rw [hsize]; exact hbound p hp)
  constructor
  · intro h
    by_cases hi : ∃ p ∈ pairs, p.1 = i ∨ p.2 = i
    · obtain ⟨p, hp, rfl | rfl⟩ := hi
      · rw [(hmem p hp).1] at h
        obtain rfl : p.2 = j := by simpa using h
        exact Or.inl hp
      · rw [(hmem p hp).2] at h
        obtain rfl : p.1 = j := by simpa using h
        exact Or.inr hp
    · have hnone : (partnerTable n pairs)[i]? = (Array.replicate n none)[i]? :=
        foldl_enterPair_absent (fun p hp => ⟨fun h1 => hi ⟨p, hp, Or.inl h1⟩,
          fun h2 => hi ⟨p, hp, Or.inr h2⟩⟩) _
      rw [hnone, Array.getElem?_replicate] at h
      split at h <;> simp at h
  · rintro (h | h)
    · simp [(hmem _ h).1]
    · simp [(hmem _ h).2]

/-- The pairs of the pass share no index. -/
theorem bracketPairs_apart (tokens : List Token) : (bracketPairs tokens).Pairwise Apart := by
  refine (bracketPairs_nested tokens).imp_of_mem fun {p q} hp hq hpq => ?_
  have hp := (bracketPairs_mem hp).lt
  have hq := (bracketPairs_mem hq).lt
  rcases hpq with ⟨h2, h1 | h1⟩ <;> refine ⟨?_, ?_, ?_, ?_⟩ <;> omega

/-- The index paired with an index of a list of tokens. -/
def partnerIn? (tokens : List Token) (i : Nat) : Option Nat :=
  (partnerTable tokens.length (bracketPairs tokens))[i]?.join

/-- Two tokens are partners if they are a pair, in this order or the other. -/
theorem partnerIn?_eq_some_iff {tokens : List Token} {i j : Nat} :
    partnerIn? tokens i = some j ↔
      (i, j) ∈ bracketPairs tokens ∨ (j, i) ∈ bracketPairs tokens :=
  partnerTable_eq_some (bracketPairs_apart tokens) (fun _ hp => (bracketPairs_mem hp).lt)
    fun _ hp => (bracketPairs_mem hp).bound

/-! ## Shapes -/

/-- The text that opens a bracket. -/
def Bracket.opening : Bracket → String
  | .round => "("
  | .square => "["
  | .curly => "\x7b"

/-- The text that closes a bracket. -/
def Bracket.closing : Bracket → String
  | .round => ")"
  | .square => "]"
  | .curly => "\x7d"

/-- A token opens the bracket whose opening punctuation it is. -/
theorem Token.opens?_iff {t : Token} {b : Bracket} :
    t.opens? = some b ↔ t.isPunct b.opening = true := by
  unfold Token.opens? Token.isPunct
  cases b <;> grind [Bracket.opening]

/-- A token closes the bracket whose closing punctuation it is. -/
theorem Token.closes?_iff {t : Token} {b : Bracket} :
    t.closes? = some b ↔ t.isPunct b.closing = true := by
  unfold Token.closes? Token.isPunct
  cases b <;> grind [Bracket.closing]

/-- A token that closes a bracket opens none. -/
theorem Token.opens?_of_closes? {t : Token} {b : Bracket} (h : t.closes? = some b) :
    t.opens? = none := by
  unfold Token.closes? at h
  unfold Token.opens?
  grind

/-! ## The partners of a code -/

namespace Code

/-- The significant tokens without their line breaks. -/
def tokens (code : Code) : List Token := code.lexemes.toList.map (·.toToken)

/-- The partners of the code are those of its tokens. -/
def Paired (code : Code) : Prop :=
  code.partners = partnerTable code.lexemes.size (bracketPairs code.tokens)

/-- The partners of a source are those of its tokens. -/
theorem paired_ofSource (l : Language) (source : String) : (ofSource l source).Paired := rfl

variable {code : Code}

theorem length_tokens (code : Code) : code.tokens.length = code.size := by
  simp [tokens, size]

theorem tokens_getElem? (code : Code) (i : Nat) : code.tokens[i]? = code.token? i := by
  simp [tokens, token?]

theorem isPunct_iff_token? {i : Nat} {p : String} :
    code.isPunct i p = true ↔ ∃ t, code.token? i = some t ∧ t.isPunct p = true := by
  simp only [isPunct, token?, Option.any_eq_true, Option.map_eq_some_iff]
  constructor
  · rintro ⟨t, ht, hp⟩
    exact ⟨t.toToken, ⟨t, ht, rfl⟩, hp⟩
  · rintro ⟨_, ⟨t, ht, rfl⟩, hp⟩
    exact ⟨t, ht, hp⟩

theorem opens_at_iff {i : Nat} {b : Bracket} :
    code.tokens[i]?.bind Token.opens? = some b ↔ code.isPunct i b.opening = true := by
  rw [tokens_getElem?, Option.bind_eq_some_iff, isPunct_iff_token?]
  simp only [Token.opens?_iff]

theorem closes_at_iff {i : Nat} {b : Bracket} :
    code.tokens[i]?.bind Token.closes? = some b ↔ code.isPunct i b.closing = true := by
  rw [tokens_getElem?, Option.bind_eq_some_iff, isPunct_iff_token?]
  simp only [Token.closes?_iff]

theorem opensBracket_of_isPunct {i : Nat} {b : Bracket} (h : code.isPunct i b.opening = true) :
    code.opensBracket i = true := by
  obtain ⟨t, ht, hp⟩ := (Option.any_eq_true ..).mp h
  have hopens : t.opens? = some b := Token.opens?_iff.mpr hp
  simp [opensBracket, ht, hopens]

/-- A token has one text. -/
theorem isPunct_text {i : Nat} {p : String} (h : code.isPunct i p = true) : code.text i = p := by
  obtain ⟨t, ht, hp⟩ := Option.any_eq_true _ _ |>.mp h
  simp only [text, ht]
  simp only [Token.isPunct, Bool.and_eq_true, beq_iff_eq] at hp
  simpa using hp.2

/-- Punctuation is no word. -/
theorem not_isWord_of_isPunct {i : Nat} {p : String} (h : code.isPunct i p = true) :
    code.isWord i = false := by
  obtain ⟨t, ht, hp⟩ := (Option.any_eq_true ..).mp h
  simp only [Token.isPunct, Bool.and_eq_true, beq_iff_eq] at hp
  simp [isWord, ht, Token.isWord, hp.1]

namespace Paired

/-- The partners of a code are looked up in its tokens. -/
theorem partner?_eq (h : code.Paired) (i : Nat) : code.partner? i = partnerIn? code.tokens i := by
  rw [partner?, h, partnerIn?, length_tokens, size]

/-- Partners are pairs of brackets. -/
theorem partner?_iff (h : code.Paired) {i j : Nat} :
    code.partner? i = some j ↔
      (i, j) ∈ bracketPairs code.tokens ∨ (j, i) ∈ bracketPairs code.tokens := by
  rw [h.partner?_eq, partnerIn?_eq_some_iff]

/-- A closer is the second of a pair. -/
theorem closer?_iff (h : code.Paired) {i j : Nat} :
    code.closer? i = some j ↔ (i, j) ∈ bracketPairs code.tokens := by
  rw [closer?, Option.filter_eq_some_iff, h.partner?_iff]
  constructor
  · rintro ⟨hp | hp, hlt⟩
    · exact hp
    · have := (bracketPairs_mem hp).lt
      simp at hlt this
      omega
  · exact fun hp => ⟨Or.inl hp, by simpa using (bracketPairs_mem hp).lt⟩

/-- An opener is the first of a pair. -/
theorem opener?_iff (h : code.Paired) {i j : Nat} :
    code.opener? i = some j ↔ (j, i) ∈ bracketPairs code.tokens := by
  rw [opener?, Option.filter_eq_some_iff, h.partner?_iff]
  constructor
  · rintro ⟨hp | hp, hlt⟩
    · have := (bracketPairs_mem hp).lt
      simp at hlt this
      omega
    · exact hp
  · exact fun hp => ⟨Or.inr hp, by simpa using (bracketPairs_mem hp).lt⟩

/-- A pair of brackets: the opener, the closer after it, both of one shape. -/
theorem shape (h : code.Paired) {i j : Nat} (hc : code.closer? i = some j) :
    ∃ b : Bracket, code.isPunct i b.opening = true ∧ code.isPunct j b.closing = true := by
  obtain ⟨b, ho, hcl⟩ := (bracketPairs_mem (h.closer?_iff.mp hc)).shape
  exact ⟨b, opens_at_iff.mp ho, closes_at_iff.mp hcl⟩

/-- The partner of an opener is its closer. -/
theorem closer?_of_opening (h : code.Paired) {i j : Nat} {b : Bracket}
    (hb : code.isPunct i b.opening = true) (hp : code.partner? i = some j) :
    code.closer? i = some j ∧ code.isPunct j b.closing = true := by
  have hpair : (i, j) ∈ bracketPairs code.tokens := by
    cases h.partner?_iff.mp hp with
    | inl hp => exact hp
    | inr hp =>
      -- The index would close a bracket too.
      obtain ⟨b', -, hcl⟩ := (bracketPairs_mem hp).shape
      have := isPunct_text (closes_at_iff.mp hcl)
      rw [isPunct_text hb] at this
      exact absurd this (by cases b <;> cases b' <;> decide)
  have hclose := h.closer?_iff.mpr hpair
  obtain ⟨b', ho, hcl⟩ := h.shape hclose
  have : b' = b := by
    have := isPunct_text ho
    rw [isPunct_text hb] at this
    revert this
    cases b <;> cases b' <;> decide
  subst this
  exact ⟨hclose, hcl⟩

/-- Pairs are nested or disjoint. -/
theorem nested (h : code.Paired) {a b c d : Nat} (hab : code.closer? a = some b)
    (hcd : code.closer? c = some d) (hac : a < c) (hcb : c < b) : d < b :=
  bracketPairs_cross (h.closer?_iff.mp hab) (h.closer?_iff.mp hcd) hac hcb

end Paired

end Code

end Cyclomatic
