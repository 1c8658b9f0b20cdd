import Cyclomatic.Proofs.JavaCore.Spelling
import Mathlib.Data.List.TakeWhile

/-!
# Bracket partners are sound and local

The table of partners of any list of tokens is sound: partners point at each other, they have one
shape, and pairs are nested or disjoint.  It is also as full as it can be.  Before a closer some
openers stand open (`StandsOpen`), those that have no closer yet and that no closer has cut off.  A
closer pairs with the last one of its shape, and stays alone only if there is none.

This follows from an invariant of the pairing pass (`Passed`): an opener that has been read is still
on the stack, or it lies under a pair that has closed.

The table is local, too.  A piece of the list in which the brackets match is paired within itself,
whatever stands around it (`partnerIn?_of_balanced`).
-/

namespace Cyclomatic

open JavaCore

variable {tokens : List Token} {b : Bracket} {i j k o : Nat}

/-! ## The pass -/

/-- The pairing pass has come to an index, with the pairs closed so far and the brackets open. -/
structure Passed (tokens : List Token) (i : Nat) (pairs : List (Nat × Nat))
    (stack : List (Nat × Bracket)) : Prop where
  /-- The other pairs are found from here on. -/
  split : bracketPairs tokens = pairs ++ pairsFrom i stack (tokens.drop i)
  /-- The brackets of the stack are openers in order. -/
  brackets : OpenBrackets tokens i stack
  /-- The pairs have closed. -/
  closed : ∀ p ∈ pairs, p.2 < i
  /-- An opener is still on the stack, or under a pair: its own, or one that cuts it off. -/
  seen : ∀ {o b}, o < i → tokens[o]?.bind Token.opens? = some b →
    (o, b) ∈ stack ∨ ∃ p ∈ pairs, p.1 ≤ o ∧ o < p.2

namespace Passed

variable {pairs : List (Nat × Nat)} {stack : List (Nat × Bracket)}

theorem start (tokens : List Token) : Passed tokens 0 [] [] where
  split := rfl
  brackets := .nil
  closed := nofun
  seen h := absurd h (Nat.not_lt_zero _)

/-- The brackets that a closer drops from the stack stand behind the one that it finds. -/
theorem le_of_dropWhile (h : Passed tokens i pairs stack) {b' c : Bracket}
    {below : List (Nat × Bracket)} (hfound : stack.dropWhile (·.2 != b) = (o, b') :: below)
    (hmem : (k, c) ∈ stack) : (k, c) ∈ below ∨ k = o ∨ o < k ∧ c ≠ b := by
  have hsplit : stack.takeWhile (·.2 != b) ++ stack.dropWhile (·.2 != b) = stack :=
    List.takeWhile_append_dropWhile
  have horder := h.brackets.order
  rw [hfound] at hsplit
  rw [← hsplit, List.pairwise_append] at horder
  rw [← hsplit, List.mem_append, List.mem_cons] at hmem
  rcases hmem with hmem | heq | hmem
  · have hshape := List.mem_takeWhile_imp hmem
    exact .inr (.inr ⟨horder.2.2 _ hmem _ (List.mem_cons_self ..), by simpa using hshape⟩)
  · exact .inr (.inl (congrArg Prod.fst heq))
  · exact .inl hmem

/-- A token that opens no bracket is no opener to be seen. -/
theorem lt_of_not_opens {t : Token} (ht : tokens[i]? = some t) (hopens : t.opens? = none)
    (ho : o < i + 1) (hb : tokens[o]?.bind Token.opens? = some b) : o < i := by
  refine Nat.lt_of_le_of_ne (Nat.le_of_lt_succ ho) ?_
  rintro rfl
  rw [ht] at hb
  cases hopens.symm.trans hb

/-- One token more keeps the invariant. -/
theorem step (h : Passed tokens i pairs stack) (hi : i < tokens.length) :
    ∃ pairs' stack', Passed tokens (i + 1) pairs' stack' := by
  obtain ⟨t, ht⟩ : ∃ t, tokens[i]? = some t := ⟨_, List.getElem?_eq_getElem hi⟩
  have hclosed : ∀ p ∈ pairs, p.2 < i + 1 := fun p hp => Nat.lt_succ_of_lt (h.closed p hp)
  have hsplit := h.split
  rw [List.drop_eq_getElem?_toList_append, ht, Option.toList_some, List.singleton_append,
    pairsFrom] at hsplit
  cases hopens : t.opens? with
  | some c =>
    rw [hopens] at hsplit
    refine ⟨pairs, (i, c) :: stack, hsplit, h.brackets.push ht hopens, hclosed, ?_⟩
    intro o b ho hb
    rcases Nat.lt_or_eq_of_le (Nat.le_of_lt_succ ho) with hlt | rfl
    · exact (h.seen hlt hb).imp_left (List.mem_cons_of_mem _)
    · rw [ht] at hb
      obtain rfl := Option.some.inj (hopens.symm.trans hb)
      exact .inl (List.mem_cons_self ..)
  | none =>
    rw [hopens] at hsplit
    have hseen {o : Nat} {b : Bracket} (ho : o < i + 1)
        (hb : tokens[o]?.bind Token.opens? = some b) :
        (o, b) ∈ stack ∨ ∃ p ∈ pairs, p.1 ≤ o ∧ o < p.2 :=
      h.seen (lt_of_not_opens ht hopens ho hb) hb
    cases hcloses : t.closes? with
    | none =>
      rw [hcloses] at hsplit
      exact ⟨pairs, stack, hsplit, h.brackets.succ, hclosed, hseen⟩
    | some c =>
      rw [hcloses] at hsplit
      dsimp only at hsplit
      cases hfound : stack.dropWhile (·.2 != c) with
      | nil =>
        rw [hfound] at hsplit
        exact ⟨pairs, stack, hsplit, h.brackets.succ, hclosed, hseen⟩
      | cons e below =>
        rw [hfound] at hsplit
        have hbelow := (List.sublist_cons_self _ _).trans (dropWhile_shape hfound).2
        refine ⟨pairs ++ [(e.1, i)], below, by rw [hsplit, List.append_assoc]; rfl,
          (h.brackets.sublist hbelow).succ, ?_, fun {o b} ho hb => ?_⟩
        · intro p hp
          rcases List.mem_append.mp hp with hp | hp
          · exact hclosed p hp
          · rw [List.mem_singleton.mp hp]
            exact Nat.lt_succ_self i
        · -- What the closer drops lies under its pair.
          have hlt := lt_of_not_opens ht hopens ho hb
          rcases h.seen hlt hb with hmem | ⟨p, hp, hcover⟩
          · rcases h.le_of_dropWhile hfound hmem with hmem | heq | ⟨hle, -⟩
            · exact .inl hmem
            · exact .inr ⟨_, List.mem_append_right _ (List.mem_cons_self ..), heq.ge, hlt⟩
            · exact .inr ⟨_, List.mem_append_right _ (List.mem_cons_self ..), hle.le, hlt⟩
          · exact .inr ⟨p, List.mem_append_left _ hp, hcover⟩

/-- The pass comes to every index. -/
theorem run (hi : i ≤ tokens.length) : ∃ pairs stack, Passed tokens i pairs stack := by
  induction i with
  | zero => exact ⟨[], [], start tokens⟩
  | succ i ih =>
    obtain ⟨pairs, stack, h⟩ := ih (Nat.le_of_succ_le hi)
    exact h.step hi

/-- A closer pairs with the first bracket of its shape on the stack. -/
theorem mem_bracketPairs_iff (h : Passed tokens k pairs stack)
    (hk : tokens[k]?.bind Token.closes? = some b) :
    (o, k) ∈ bracketPairs tokens ↔ ∃ below, stack.dropWhile (·.2 != b) = (o, b) :: below := by
  obtain ⟨t, ht, hcloses⟩ := Option.bind_eq_some_iff.mp hk
  have hlater {stack' : List (Nat × Bracket)} (hsub : stack'.Sublist stack) :
      (o, k) ∉ pairsFrom (k + 1) stack' (tokens.drop (k + 1)) := fun hmem =>
    Nat.not_succ_le_self k (pairsFrom_mem rfl (h.brackets.sublist hsub).succ hmem).ahead
  have hearlier : (o, k) ∉ pairs := fun hmem => Nat.lt_irrefl k (h.closed _ hmem)
  rw [h.split, List.drop_eq_getElem?_toList_append, ht, Option.toList_some,
    List.singleton_append, pairsFrom, Token.opens?_of_closes? hcloses, hcloses, List.mem_append]
  dsimp only
  cases hfound : stack.dropWhile (·.2 != b) with
  | nil =>
    constructor
    · rintro (hmem | hmem)
      · exact absurd hmem hearlier
      · exact absurd hmem (hlater (List.Sublist.refl _))
    · rintro ⟨below, heq⟩
      cases heq
  | cons e below =>
    obtain ⟨q, c⟩ := e
    obtain ⟨rfl, hsub⟩ := dropWhile_shape hfound
    constructor
    · rintro (hmem | hmem)
      · exact absurd hmem hearlier
      · rcases List.mem_cons.mp hmem with heq | hmem
        · cases heq
          exact ⟨below, rfl⟩
        · exact absurd hmem (hlater ((List.sublist_cons_self _ _).trans hsub))
    · rintro ⟨below', heq⟩
      cases heq
      exact .inr (List.mem_cons_self ..)

end Passed

/-! ## Openers that stand open -/

theorem mem_bracketPairs_of_partnerIn? (h : partnerIn? tokens i = some j) (hij : i ≤ j) :
    (i, j) ∈ bracketPairs tokens :=
  (partnerIn?_eq_some_iff.mp h).resolve_right fun hmem =>
    absurd (bracketPairs_mem hmem).lt (Nat.not_lt.mpr hij)

/-- A closer before `i` has cut off the opener at `o`: its own opener stands before `o`. -/
def CutOff (tokens : List Token) (o i : Nat) : Prop :=
  ∃ p c, partnerIn? tokens p = some c ∧ p < o ∧ o < c ∧ c < i

/-- The opener at `o` stands open before `i`. -/
structure StandsOpen (tokens : List Token) (b : Bracket) (o i : Nat) : Prop where
  /-- It stands before it. -/
  lt : o < i
  /-- It opens a bracket of the shape. -/
  opens : tokens[o]?.bind Token.opens? = some b
  /-- It has no closer before it. -/
  unclosed : ∀ c, partnerIn? tokens o = some c → i ≤ c
  /-- No closer before it has cut it off. -/
  kept : ¬ CutOff tokens o i

/-- An opener that stands open is on the stack. -/
theorem Passed.mem_of_standsOpen {pairs : List (Nat × Nat)} {stack : List (Nat × Bracket)}
    (h : Passed tokens i pairs stack) (ho : StandsOpen tokens b o i) : (o, b) ∈ stack := by
  refine (h.seen ho.lt ho.opens).resolve_right ?_
  rintro ⟨p, hp, hle, hlt⟩
  have hmem : p ∈ bracketPairs tokens := h.split ▸ List.mem_append_left _ hp
  have hpartner : partnerIn? tokens p.1 = some p.2 := partnerIn?_eq_some_iff.mpr (.inl hmem)
  rcases Nat.lt_or_eq_of_le hle with hcut | rfl
  · exact ho.kept ⟨p.1, p.2, hpartner, hcut, hlt, h.closed p hp⟩
  · exact absurd (h.closed p hp) (Nat.not_lt.mpr (ho.unclosed _ hpartner))

/-- The opener of a pair stands open before the closer. -/
theorem standsOpen_of_mem (h : (o, k) ∈ bracketPairs tokens)
    (hk : tokens[k]?.bind Token.closes? = some b) : StandsOpen tokens b o k := by
  have hpair := bracketPairs_mem h
  have hpartner : partnerIn? tokens o = some k := partnerIn?_eq_some_iff.mpr (.inl h)
  obtain ⟨b', hopens, hcloses⟩ := hpair.shape
  obtain rfl := Option.some.inj (hcloses.symm.trans hk)
  refine ⟨hpair.lt, hopens, fun c hc => ?_, ?_⟩
  · exact Nat.le_of_eq (Option.some.inj (hpartner.symm.trans hc))
  · rintro ⟨p, c, hc, hpo, hoc, hck⟩
    have := bracketPairs_cross (mem_bracketPairs_of_partnerIn? hc (by omega)) h hpo hoc
    omega

/-- A closer pairs with the last opener of its shape that stands open. -/
theorem partnerIn?_closer (hk : tokens[k]?.bind Token.closes? = some b) :
    (partnerIn? tokens k = none → ∀ o, ¬ StandsOpen tokens b o k) ∧
      ∀ o, partnerIn? tokens k = some o →
        StandsOpen tokens b o k ∧ ∀ o', StandsOpen tokens b o' k → o' ≤ o := by
  obtain ⟨t, ht, hcloses⟩ := Option.bind_eq_some_iff.mp hk
  obtain ⟨pairs, stack, hpassed⟩ :=
    Passed.run (Nat.le_of_lt (List.getElem?_eq_some_iff.mp ht).1)
  constructor
  · intro hnone o ho
    cases hfound : stack.dropWhile (·.2 != b) with
    | nil =>
      have hshape := List.dropWhile_eq_nil_iff.mp hfound _ (hpassed.mem_of_standsOpen ho)
      simp at hshape
    | cons e below =>
      obtain ⟨q, c⟩ := e
      obtain ⟨rfl, -⟩ := dropWhile_shape hfound
      have hmem := (hpassed.mem_bracketPairs_iff hk).mpr ⟨below, hfound⟩
      rw [partnerIn?_eq_some_iff.mpr (.inr hmem)] at hnone
      cases hnone
  · intro o ho
    have hmem : (o, k) ∈ bracketPairs tokens := by
      refine (partnerIn?_eq_some_iff.mp ho).resolve_left fun hmem => ?_
      obtain ⟨b', hopens, -⟩ := (bracketPairs_mem hmem).shape
      rw [ht, Option.bind_some, Token.opens?_of_closes? hcloses] at hopens
      cases hopens
    refine ⟨standsOpen_of_mem hmem hk, fun o' ho' => ?_⟩
    obtain ⟨below, hfound⟩ := (hpassed.mem_bracketPairs_iff hk).mp hmem
    have hstack := hpassed.brackets.order.sublist (dropWhile_shape hfound).2
    rcases hpassed.le_of_dropWhile hfound (hpassed.mem_of_standsOpen ho') with
      hbelow | heq | ⟨-, hshape⟩
    · exact Nat.le_of_lt ((List.pairwise_cons.mp hstack).1 _ hbelow)
    · exact Nat.le_of_eq heq
    · exact absurd rfl hshape

/-! ## Pieces in which the brackets match -/

/-- A bracket of a list in which the brackets match is one end of a group. -/
theorem Balanced.exists_group {fs : List Face} (h : Balanced fs) {n : Nat} {f : Face}
    (hf : fs[n]? = some f) (hbracket : isBracket f = true) :
    ∃ (front : List Face) (b : Bracket) (inner back : List Face),
      fs = front ++ punct b.opening :: (inner ++ punct b.closing :: back) ∧
      Balanced inner ∧ (n = front.length ∨ n = front.length + 1 + inner.length) := by
  induction h generalizing n with
  | nil => cases hf
  | @cons g fs hg _ ih =>
    cases n with
    | zero =>
      cases hf
      cases hg.symm.trans hbracket
    | succ n =>
      obtain ⟨front, b, inner, back, rfl, hinner, hn⟩ := ih hf
      refine ⟨g :: front, b, inner, back, rfl, hinner, ?_⟩
      rw [List.length_cons]
      omega
  | @group b inner fs hinner _ ih ih' =>
    cases n with
    | zero => exact ⟨[], b, inner, fs, rfl, hinner, .inl rfl⟩
    | succ n =>
      rw [List.getElem?_cons_succ] at hf
      rcases Nat.lt_trichotomy n inner.length with hlt | rfl | hlt
      · rw [List.getElem?_append_left hlt] at hf
        obtain ⟨front, b', inner', back, rfl, hinner', hn⟩ := ih hf
        refine ⟨punct b.opening :: front, b', inner', back ++ punct b.closing :: fs, by simp,
          hinner', ?_⟩
        rw [List.length_cons]
        omega
      · exact ⟨[], b, inner, fs, rfl, hinner, .inr (by simp; omega)⟩
      · obtain ⟨m, rfl⟩ : ∃ m, n = inner.length + 1 + m := ⟨n - (inner.length + 1), by omega⟩
        rw [List.getElem?_append_right (by omega), Nat.add_assoc, Nat.add_sub_cancel_left,
          Nat.add_comm, List.getElem?_cons_succ] at hf
        obtain ⟨front, b', inner', back, rfl, hinner', hn⟩ := ih' hf
        refine ⟨punct b.opening :: (inner ++ punct b.closing :: front), b', inner', back, by simp,
          hinner', ?_⟩
        simp only [List.length_cons, List.length_append]
        omega

/-- A piece in which the brackets match is paired within itself. -/
theorem partnerIn?_of_balanced {front piece back : List Token}
    (h : Balanced (piece.map Token.face)) {n : Nat} {t : Token} (ht : piece[n]? = some t)
    (hbracket : isBracket t.face = true) :
    ∃ m < piece.length, partnerIn? (front ++ piece ++ back) (front.length + n) =
      some (front.length + m) := by
  obtain ⟨_, b, _, _, hfaces, hinner, hn⟩ :=
    h.exists_group (by rw [List.getElem?_map, ht, Option.map_some]) hbracket
  obtain ⟨before, rest, rfl, rfl, hgroup⟩ := List.map_eq_append_iff.mp hfaces
  obtain ⟨s, rest, rfl, hs, hrest⟩ := List.map_eq_cons_iff.mp hgroup
  obtain ⟨inner, rest, rfl, rfl, hclosed⟩ := List.map_eq_append_iff.mp hrest
  obtain ⟨u, after, rfl, hu, -⟩ := List.map_eq_cons_iff.mp hclosed
  have hpair := mem_bracketPairs_group (front ++ before) (after ++ back) hs hu hinner
  have hlist : front ++ (before ++ s :: (inner ++ u :: after)) ++ back =
      front ++ before ++ s :: (inner ++ u :: (after ++ back)) := by simp
  rw [List.length_append] at hpair
  simp only [hlist, partnerIn?_eq_some_iff, List.length_append, List.length_cons]
  rw [List.length_map, List.length_map] at hn
  rcases hn with rfl | rfl
  · refine ⟨before.length + 1 + inner.length, by omega, .inl ?_⟩
    simpa only [Nat.add_assoc] using hpair
  · exact ⟨before.length, by omega, .inr (by simpa only [Nat.add_assoc] using hpair)⟩

/-- The partners of brackets in a list of tokens.  Partners point at each other, the first opens and
the second closes a bracket of one shape, and pairs do not cross.  A closer pairs with the last
opener of its shape that stands open before it, and is alone if none does.  A piece in which the
brackets match is paired within itself. -/
theorem partners_sound (tokens : List Token) :
    (∀ i j, partnerIn? tokens i = some j ↔ partnerIn? tokens j = some i) ∧
      (∀ i j, partnerIn? tokens i = some j → i ≤ j → i < j ∧
        ∃ (b : Bracket) (s t : Token), tokens[i]? = some s ∧ s.isPunct b.opening = true ∧
          tokens[j]? = some t ∧ t.isPunct b.closing = true) ∧
      (∀ o c o' c', partnerIn? tokens o = some c → partnerIn? tokens o' = some c' → o' ≤ c' →
        o < o' → o' < c → c' < c) ∧
      (∀ k t b, tokens[k]? = some t → t.closes? = some b →
        (partnerIn? tokens k = none → ∀ o, ¬ StandsOpen tokens b o k) ∧
          ∀ o, partnerIn? tokens k = some o →
            StandsOpen tokens b o k ∧ ∀ o', StandsOpen tokens b o' k → o' ≤ o) ∧
      ∀ front piece back, tokens = front ++ piece ++ back → Balanced (piece.map Token.face) →
        ∀ n t, piece[n]? = some t → isBracket t.face = true →
          ∃ m < piece.length, partnerIn? tokens (front.length + n) = some (front.length + m) := by
  refine ⟨fun i j => ?_, fun i j h hle => ?_, fun o c o' c' h h' hle hlt hlt' => ?_,
    fun k t b ht hcloses => partnerIn?_closer (by rw [ht, Option.bind_some, hcloses]), ?_⟩
  · rw [partnerIn?_eq_some_iff, partnerIn?_eq_some_iff, or_comm]
  · have hpair := bracketPairs_mem (mem_bracketPairs_of_partnerIn? h hle)
    obtain ⟨b, hopens, hcloses⟩ := hpair.shape
    obtain ⟨s, hs, hsb⟩ := Option.bind_eq_some_iff.mp hopens
    obtain ⟨t, ht, htb⟩ := Option.bind_eq_some_iff.mp hcloses
    exact ⟨hpair.lt, b, s, t, hs, Token.opens?_iff.mp hsb, ht, Token.closes?_iff.mp htb⟩
  · exact bracketPairs_cross (mem_bracketPairs_of_partnerIn? h (by omega))
      (mem_bracketPairs_of_partnerIn? h' hle) hlt hlt'
  · rintro front piece back rfl hpiece n t ht hbracket
    exact partnerIn?_of_balanced hpiece ht hbracket

/-- The brace cuts off the round bracket, so both round brackets are alone.  The square ones behind
them match. -/
theorem partners_sound_cutOff :
    let tokens : List Token := ["\x7b", "(", "\x7d", ")", "[", "]"].map (⟨.punctuation, ·, 0, 0⟩)
    (List.range 6).map (partnerIn? tokens) = [some 2, none, some 0, none, some 5, some 4] ∧
      (∀ o, ¬ StandsOpen tokens .round o 3) ∧ StandsOpen tokens .curly 0 2 ∧
      ∃ m < 2, partnerIn? tokens 4 = some (4 + m) := by
  intro tokens
  obtain ⟨-, -, -, hcloser, hpiece⟩ := partners_sound tokens
  have halone := (hcloser 3 _ .round rfl rfl).1 (by decide)
  have hopen := ((hcloser 2 _ .curly rfl rfl).2 0 (by decide)).1
  have hmatch : Balanced ((tokens.drop 4).map Token.face) := .group .square .nil .nil
  exact ⟨by decide, halone, hopen,
    hpiece (tokens.take 4) (tokens.drop 4) [] (by decide) hmatch 0 _ rfl (by decide)⟩

end Cyclomatic
