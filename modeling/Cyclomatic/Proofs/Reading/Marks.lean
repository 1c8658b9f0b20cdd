import Cyclomatic.Proofs.JavaCore.Body
import Cyclomatic.Proofs.Tiling

/-!
# Marked tokens

A syntax tree is written with tokens, and a reader marks those that are decisions.  `Code.Reads`
says that a piece of code makes the marked decisions and no others, and that no type and no
function starts in it.  `Code.placed` lists the kinds and places of the marked tokens.

Nothing here is about one language.  A symbol that no table entry mentions is `plain`; a name is
any text that the scanner of the language reads as one identifier.
-/

namespace Cyclomatic

open JavaCore

/-! ## Names -/

/-- The scanner reads the text as one identifier. -/
def Language.isName (l : Language) (s : String) : Bool :=
  (scan l s).map Token.face == [(.identifier, s)]

/-- A name in a language. -/
structure Name (l : Language) where
  /-- Its text. -/
  text : String
  /-- The text is an identifier. -/
  valid : l.isName text = true

namespace Name

variable {l : Language}

/-- The token of a name. -/
def face (x : Name l) : Face := (.identifier, x.text)

/-- A name is none of the words that are no names. -/
theorem not_mem (x : Name l) {words : List String} (h : words.all (!l.isName ·) = true) :
    x.text ∉ words := by
  intro hmem
  have := List.all_eq_true.mp h _ hmem
  rw [x.valid] at this
  cases this

theorem isBracket_face (x : Name l) : isBracket x.face = false := rfl

end Name

/-! ## Marks -/

/-- A token, and the kind of decision that it is, if it is one. -/
abbrev Marked := Face × Option Category

/-- Tokens that are no decisions. -/
def unmarked (fs : List Face) : List Marked := fs.map fun f => (f, none)

/-- The tokens of a list, without their marks. -/
def facesOf (ms : List Marked) : List Face := ms.map Prod.fst

@[simp] theorem facesOf_nil : facesOf [] = [] := rfl

@[simp] theorem facesOf_cons (m : Marked) (ms : List Marked) :
    facesOf (m :: ms) = m.1 :: facesOf ms := rfl

@[simp] theorem facesOf_append (ms ns : List Marked) :
    facesOf (ms ++ ns) = facesOf ms ++ facesOf ns := List.map_append

@[simp] theorem facesOf_unmarked (fs : List Face) : facesOf (unmarked fs) = fs := by
  simp [facesOf, unmarked, Function.comp_def]

@[simp] theorem unmarked_cons (f : Face) (fs : List Face) :
    unmarked (f :: fs) = (f, none) :: unmarked fs := rfl

@[simp] theorem unmarked_append (fs gs : List Face) :
    unmarked (fs ++ gs) = unmarked fs ++ unmarked gs := List.map_append

@[simp] theorem length_unmarked (fs : List Face) : (unmarked fs).length = fs.length :=
  List.length_map ..

@[simp] theorem length_facesOf (ms : List Marked) : (facesOf ms).length = ms.length :=
  List.length_map ..

/-- Marked tokens agree if their parts of equal length do. -/
theorem append_eq_append_iff {a b c d : List Marked} (h : a.length = b.length) :
    a ++ c = b ++ d ↔ a = b ∧ c = d :=
  ⟨fun heq => List.append_inj heq h, fun ⟨h1, h2⟩ => h1 ▸ h2 ▸ rfl⟩

/-- The kind and the place of a decision. -/
def Decision.place (d : Decision) : Category × Nat := (d.category, d.offset)

/-- The number of tokens with a mark. -/
def countMarks (c : Category) (ms : List Marked) : Nat := ms.countP (·.2 == some c)

@[simp] theorem countMarks_cons (c : Category) (m : Marked) (ms : List Marked) :
    countMarks c (m :: ms) = countMarks c ms + if m.2 = some c then 1 else 0 := by
  simp [countMarks, List.countP_cons]

/-- Marks of two lists are counted one by one. -/
@[simp] theorem countMarks_append (c : Category) (ms ns : List Marked) :
    countMarks c (ms ++ ns) = countMarks c ms + countMarks c ns := List.countP_append ..

@[simp] theorem countMarks_nil (c : Category) : countMarks c [] = 0 := rfl

/-- Without marks none are counted. -/
@[simp] theorem countMarks_unmarked (c : Category) (fs : List Face) :
    countMarks c (unmarked fs) = 0 := by
  simp [countMarks, unmarked]

/-- None of the tokens is a literal. -/
def solid (fs : List Face) : Bool := fs.all (·.1 != .stringLiteral)

@[simp] theorem solid_nil : solid [] = true := rfl

@[simp] theorem solid_cons (f : Face) (fs : List Face) :
    solid (f :: fs) = (f.1 != .stringLiteral && solid fs) := rfl

@[simp] theorem solid_append (fs gs : List Face) : solid (fs ++ gs) = (solid fs && solid gs) :=
  List.all_append

/-- The brackets of a list match, and none of its tokens is a literal. -/
structure Tidy (fs : List Face) : Prop where
  /-- The brackets match. -/
  balanced : Balanced fs
  /-- There are no literals. -/
  solid : solid fs = true

namespace Tidy

theorem nil : Tidy [] := ⟨.nil, rfl⟩

/-- Tidy lists stay tidy when they are joined. -/
theorem append {a b : List Face} (ha : Tidy a) (hb : Tidy b) : Tidy (a ++ b) :=
  ⟨ha.balanced.append hb.balanced, by rw [solid_append, ha.solid, hb.solid]; rfl⟩

theorem cons {f : Face} {fs : List Face} (hf : (isBracket f || f.1 == .stringLiteral) = false)
    (h : Tidy fs) : Tidy (f :: fs) := by
  rw [Bool.or_eq_false_iff] at hf
  exact ⟨.cons hf.1 h.balanced, by rw [solid_cons, bne, hf.2, h.solid]; rfl⟩

/-- A list in brackets. -/
theorem group (b : Bracket) {inner fs : List Face} (hinner : Tidy inner) (h : Tidy fs) :
    Tidy (punct b.opening :: (inner ++ punct b.closing :: fs)) :=
  ⟨.group b hinner.balanced h.balanced, by simp [hinner.solid, h.solid]⟩

theorem parens {inner : List Face} (h : Tidy inner) : Tidy (parens inner) := h.group .round nil

theorem braces {inner : List Face} (h : Tidy inner) : Tidy (braces inner) := h.group .curly nil

end Tidy

namespace Code

variable {code : Code} {l : Language} {rules : SignatureRules} {i k : Nat}

/-- The kinds and places of the marked tokens, from token `i` on. -/
def placed (code : Code) (i : Nat) : List Marked → List (Category × Nat)
  | [] => []
  | (_, mark) :: ms => (mark.map fun c => (c, code.offset i)).toList ++ code.placed (i + 1) ms

/-- There are at most as many places of marks as tokens. -/
theorem length_placed_le (i : Nat) (ms : List Marked) : (code.placed i ms).length ≤ ms.length := by
  induction ms generalizing i with
  | nil => exact Nat.le_refl 0
  | cons m ms ih =>
    obtain ⟨f, mark⟩ := m
    have hmark : (mark.map fun c => (c, code.offset i)).toList.length ≤ 1 := by cases mark <;> simp
    have hrest := ih (i + 1)
    rw [placed, List.length_append, List.length_cons]
    omega

/-- The places of a category are as many as its marks. -/
theorem countP_placed (c : Category) (i : Nat) (ms : List Marked) :
    (code.placed i ms).countP (·.1 == c) = countMarks c ms := by
  induction ms generalizing i with
  | nil => rfl
  | cons m ms ih =>
    obtain ⟨f, mark⟩ := m
    rw [placed, List.countP_append, ih, countMarks_cons, Nat.add_comm]
    cases mark with
    | none => simp
    | some d => by_cases h : d = c <;> simp [h]

/-- Decisions in the places of marked tokens are as many as those tokens. -/
theorem countP_of_placed {ds : List Decision} {i : Nat} {ms : List Marked}
    (h : ds.map Decision.place = code.placed i ms) (c : Category) :
    ds.countP (·.category == c) = countMarks c ms := by
  rw [← code.countP_placed c i ms, ← h, List.countP_map]
  rfl

/-- The marks of a list that follows another have their places behind it. -/
theorem placed_append (i : Nat) (ms ns : List Marked) :
    code.placed i (ms ++ ns) = code.placed i ms ++ code.placed (i + ms.length) ns := by
  induction ms generalizing i with
  | nil => rfl
  | cons m ms ih =>
    obtain ⟨f, mark⟩ := m
    rw [List.cons_append, placed, placed, ih, List.append_assoc, List.length_cons,
      Nat.add_comm ms.length, ← Nat.add_assoc]

/-- Nothing is placed where no token is marked. -/
theorem placed_eq_nil (i : Nat) (ms : List Marked) :
    code.placed i ms = [] ↔ ms.all (·.2.isNone) = true := by
  induction ms generalizing i with
  | nil => simp [placed]
  | cons m ms ih =>
    obtain ⟨f, mark⟩ := m
    cases mark <;> simp [placed, ih]

/-- A marked token lies before those behind it. -/
theorem offset_lt_of_mem_placed (hlaid : code.Laid) {f : Face} (hf : code.face? i = some f)
    (hkind : f.1 ≠ .stringLiteral) (hik : i < k) {ms : List Marked} {p : Category × Nat}
    (hp : p ∈ code.placed k ms) : code.offset i < p.2 := by
  induction ms generalizing k with
  | nil => cases hp
  | cons m ms ih =>
    obtain ⟨g, mark⟩ := m
    rw [placed, List.mem_append] at hp
    rcases hp with hp | hp
    · obtain ⟨c, -, rfl⟩ := Option.map_eq_some_iff.mp (Option.mem_toList.mp hp)
      obtain ⟨t, ht, rfl⟩ := Option.map_eq_some_iff.mp hf
      exact hlaid.offset_lt ht hkind hik
    · exact ih (Nat.lt_succ_of_lt hik) hp

/-- The kinds and places of the marked tokens say which tokens are marked. -/
theorem placed_inj (hlaid : code.Laid) {ms ns : List Marked} (hspell : code.Spells i (facesOf ms))
    (hfaces : facesOf ns = facesOf ms) (hsolid : solid (facesOf ms) = true) :
    code.placed i ms = code.placed i ns ↔ ms = ns := by
  refine ⟨fun h => ?_, fun h => h ▸ rfl⟩
  induction ms generalizing ns i with
  | nil => exact (List.map_eq_nil_iff.mp hfaces).symm
  | cons m ms ih =>
    obtain ⟨f, a⟩ := m
    cases ns with
    | nil => cases hfaces
    | cons n ns =>
      obtain ⟨g, b⟩ := n
      rw [facesOf_cons, facesOf_cons, List.cons.injEq] at hfaces
      obtain ⟨rfl, hfaces⟩ := hfaces
      obtain ⟨hf, hrest⟩ := spells_cons.mp hspell
      rw [facesOf_cons, solid_cons, Bool.and_eq_true, bne_iff_ne] at hsolid
      obtain ⟨hkind, hmore⟩ := hsolid
      have hlater : ∀ {c : Category} {ms : List Marked},
          (c, code.offset i) ∉ code.placed (i + 1) ms := fun hmem =>
        Nat.lt_irrefl _ (offset_lt_of_mem_placed hlaid hf hkind (Nat.lt_succ_self i) hmem)
      rw [placed, placed] at h
      cases a with
      | none =>
        cases b with
        | none => rw [ih hrest hfaces hmore h]
        | some d =>
          have hmem : (d, code.offset i) ∈ code.placed (i + 1) ms := by
            change code.placed (i + 1) ms = _ at h
            rw [h]
            exact List.mem_cons_self ..
          exact absurd hmem hlater
      | some c =>
        cases b with
        | none =>
          have hmem : (c, code.offset i) ∈ code.placed (i + 1) ns := by
            change _ = code.placed (i + 1) ns at h
            rw [← h]
            exact List.mem_cons_self ..
          exact absurd hmem hlater
        | some d =>
          obtain ⟨hhead, htail⟩ := List.cons.inj h
          rw [ih hrest hfaces hmore htail, (Prod.mk.inj hhead).1]

/-! ## Reading -/

/-- The kind of decision that a token makes in a bracket that no guard asks for. -/
def categoryAt (code : Code) (l : Language) (k : Nat) : Option Category :=
  (code.ruleAt? l [] k).map (·.category)

/-- A piece of code makes the marked decisions and no others, and nothing starts in it. -/
structure Reads (code : Code) (l : Language) (i : Nat) (ms : List Marked) : Prop where
  /-- No type and no function with a body starts in it. -/
  quiet : ∀ {k}, i ≤ k → k < i + ms.length → Quiet code l.signatures k
  /-- Its tokens make the marked decisions. -/
  marks : (List.range' i ms.length).map (code.categoryAt l) = ms.map Prod.snd

namespace Reads

theorem nil : Reads code l i [] := ⟨fun h1 h2 => by simp at h2; omega, rfl⟩

/-- Two lists are read one behind the other. -/
theorem append {a b : List Marked} (ha : Reads code l i a) (hb : Reads code l (i + a.length) b) :
    Reads code l i (a ++ b) := by
  refine ⟨fun {k} h1 h2 => ?_, ?_⟩
  · rw [List.length_append] at h2
    by_cases hk : k < i + a.length
    · exact ha.quiet h1 hk
    · exact hb.quiet (by omega) (by omega)
  · rw [List.length_append, ← List.range'_append_1, List.map_append, List.map_append, ha.marks,
      hb.marks]

/-- A piece of code behind a token. -/
theorem cons {f : Face} {mark : Option Category} {ms : List Marked}
    (hq : Quiet code l.signatures i) (hm : code.categoryAt l i = mark)
    (h : Reads code l (i + 1) ms) : Reads code l i ((f, mark) :: ms) := by
  have htoken : Reads code l i [(f, mark)] := by
    refine ⟨fun {k} h1 h2 => ?_, by simp [hm]⟩
    obtain rfl : k = i := by simp at h2; omega
    exact hq
  exact htoken.append h

end Reads

/-- A token whose text no rule has makes no decision. -/
theorem categoryAt_eq_none {f : Face} (h : code.face? k = some f)
    (hf : f.2 ∉ l.decisions.map (·.token)) : code.categoryAt l k = none := by
  rw [categoryAt, ruleAt?_of_absent h hf]
  rfl

/-- A rule without guard. -/
theorem categoryAt_of_mem (htokens : (l.decisions.map (·.token)).Nodup) {token : String}
    {category : Category} {kind : Kind} (h : code.face? k = some (kind, token))
    (hk : kind = .keyword ∨ kind = .operator)
    (hr : { token := token, category := category } ∈ l.decisions) :
    code.categoryAt l k = some category := by
  rw [categoryAt, ruleAt?_of_mem htokens hr h hk, if_pos (by simp [guardHolds, guardFits])]
  rfl

end Code

/-- The words of a table with which functions start or that make decisions. -/
def Language.specials (l : Language) : List String :=
  l.signatures.introducers ++ l.signatures.arrowBinders ++ l.decisions.map (·.token)

/-- A symbol or keyword at which nothing starts. -/
def Language.isQuiet (l : Language) (f : Face) : Bool :=
  f.1 != .identifier && !l.signatures.introducers.contains f.2 &&
    !l.signatures.arrowBinders.contains f.2 && !l.signatures.containerKeywords.contains f.2

/-- A symbol or keyword at which nothing starts and that makes no decision. -/
def Language.isPlain (l : Language) (f : Face) : Bool :=
  l.isQuiet f && !(l.decisions.map (·.token)).contains f.2

namespace Code

variable {code : Code} {l : Language} {i : Nat}

/-- No signature starts at a token that is quiet in its language. -/
theorem quiet_of_isQuiet {f : Face} (hf : code.face? i = some f) (h : l.isQuiet f = true) :
    Quiet code l.signatures i := by
  simp only [Language.isQuiet, Bool.and_eq_true, bne_iff_ne, Bool.not_eq_true',
    ← Bool.not_eq_true, List.contains_iff_mem] at h
  obtain ⟨⟨⟨hk, hi⟩, hb⟩, hc⟩ := h
  exact quiet_of_symbol hf hk hi hb hc

namespace Reads

/-- A plain token without mark is read in front of a list. -/
theorem plain {f : Face} {ms : List Marked} (hf : code.face? i = some f)
    (hplain : l.isPlain f = true) (h : Reads code l (i + 1) ms) :
    Reads code l i ((f, none) :: ms) := by
  simp only [Language.isPlain, Bool.and_eq_true, Bool.not_eq_true', ← Bool.not_eq_true,
    List.contains_iff_mem] at hplain
  exact h.cons (quiet_of_isQuiet hf hplain.1) (categoryAt_eq_none hf hplain.2)

/-- A piece of code in brackets. -/
theorem group {f g : Face} {inner ms : List Marked} (hopen : code.face? i = some f)
    (hclose : code.face? (i + 1 + inner.length) = some g) (hf : l.isPlain f = true)
    (hg : l.isPlain g = true) (hinner : Reads code l (i + 1) inner)
    (h : Reads code l (i + 1 + inner.length + 1) ms) :
    Reads code l i ((f, none) :: (inner ++ (g, none) :: ms)) :=
  (hinner.append (h.plain hclose hg)).plain hopen hf

/-- A name before a symbol other than the brackets that may follow the name of a function. -/
theorem lone {x : Name l} {g : Face} {ms : List Marked} (hx : x.text ∉ l.specials)
    (hf : code.face? i = some x.face) (hg : code.face? (i + 1) = some g)
    (hkind : g.1 ≠ .identifier) (hne : g.2 ∉ ["(", "<", "[", "\x7b"])
    (h : Reads code l (i + 1) ms) : Reads code l i ((x.face, none) :: ms) := by
  simp only [Language.specials, List.mem_append, not_or] at hx
  exact h.cons (quiet_of_lone hf hx.1.1 hx.1.2 (containerAt?_of_next hg hkind) hg hne)
    (categoryAt_eq_none hf hx.2)

/-- Plain symbols and keywords one after another. -/
theorem plains {fs : List Face} {ms : List Marked} (hspell : code.Spells i fs)
    (hplain : ∀ f ∈ fs, l.isPlain f = true) (h : Reads code l (i + fs.length) ms) :
    Reads code l i (unmarked fs ++ ms) := by
  induction fs generalizing i with
  | nil => exact h
  | cons f fs ih =>
    obtain ⟨hf, hrest⟩ := spells_cons.mp hspell
    obtain ⟨hplain, hmore⟩ := List.forall_mem_cons.mp hplain
    rw [List.length_cons, Nat.add_comm fs.length, ← Nat.add_assoc] at h
    exact (ih hrest hmore h).plain hf hplain

/-- The marked tokens of a piece of code are its decisions. -/
theorem placed_eq {ms : List Marked} (h : Reads code l i ms) :
    ((List.range' i ms.length).filterMap fun x =>
      (code.ruleAt? l [] x).map (code.decision x)).map Decision.place = code.placed i ms := by
  have hplace : ∀ x, ((code.ruleAt? l [] x).map (code.decision x)).map Decision.place =
      (code.categoryAt l x).map fun c => (c, code.offset x) := by
    intro x
    rw [categoryAt, Option.map_map, Option.map_map]
    rfl
  rw [List.map_filterMap]
  simp only [hplace]
  have hmarks := h.marks
  clear h
  induction ms generalizing i with
  | nil => rfl
  | cons m ms ih =>
    rw [List.length_cons, List.range'_succ, List.map_cons, List.map_cons, List.cons.injEq] at hmarks
    rw [List.length_cons, List.range'_succ, List.filterMap_cons, Code.placed, ← hmarks.1,
      ih hmarks.2]
    cases code.categoryAt l i <;> rfl

end Reads

end Code

end Cyclomatic
