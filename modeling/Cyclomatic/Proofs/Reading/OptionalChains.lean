import Cyclomatic.Proofs.Reading.Loops
import Cyclomatic.Proofs.Reading.Ternaries

/-!
# Optional chains

Chains of members, indices and calls in JavaScript.  A mark `?.` stands before a member, an index or
arguments that may be missing.  A chain counts once if it has such a mark among its own links,
however many marks there are.

The scorer sees only tokens.  At a mark it walks back over the links of the chain, and skips groups
in brackets whole, so it does not look into the chains in indices and arguments.  Where the chain
starts, an equals sign, a comma or an opening bracket ends the walk.  So the scorer knows at each
mark whether an earlier one stands in the same chain (`Access.Links.reads`).
-/

namespace Cyclomatic

open JavaCore

namespace Access

/-- The table of JavaScript. -/
abbrev script : Language := Language.JavaScript.table.canonical

/-! ## Chains -/

mutual

/-- A chain: what it starts with, and its links. -/
inductive Chain where
  | mk (atom : Atom) (links : Links)

/-- What a chain starts with. -/
inductive Atom where
  | name (x : Name script)
  | this
  | paren (c : Chain)

/-- The links of a chain.  Each of them may be optional. -/
inductive Links where
  | nil
  | member (opt : Bool) (x : Name script) (rest : Links)
  | index (opt : Bool) (c : Chain) (rest : Links)
  | call (opt : Bool) (first : Chain) (more : Chains) (rest : Links)

/-- Chains behind commas. -/
inductive Chains where
  | nil
  | cons (c : Chain) (rest : Chains)

end

/-- The token before the name of a member. -/
def point (opt : Bool) : Face := if opt then op "?." else punct "."

/-- The token before an optional index or optional arguments. -/
def lead (opt : Bool) : List Face := if opt then [op "?."] else []

mutual

/-- The tokens of a chain. -/
def Chain.faces : Chain → List Face
  | .mk atom links => atom.faces ++ links.faces

def Atom.faces : Atom → List Face
  | .name x => [x.face]
  | .this => [word "this"]
  | .paren c => parens c.faces

def Links.faces : Links → List Face
  | .nil => []
  | .member opt x rest => point opt :: x.face :: rest.faces
  | .index opt c rest => lead opt ++ punct "[" :: (c.faces ++ punct "]" :: rest.faces)
  | .call opt first more rest =>
    lead opt ++ punct "(" :: ((first.faces ++ more.faces) ++ punct ")" :: rest.faces)

def Chains.faces : Chains → List Face
  | .nil => []
  | .cons c rest => punct "," :: (c.faces ++ rest.faces)

end

/-! ## Marks -/

/-- The mark of a link counts if it is the first of its chain. -/
def markOf (opt seen : Bool) : Option Category :=
  if opt && !seen then some .optionalChain else none

mutual

/-- The tokens of a chain, where the first mark among its own links is a decision. -/
def Chain.marked : Chain → List Marked
  | .mk atom links => atom.marked ++ links.marked false

def Atom.marked : Atom → List Marked
  | .name x => [(x.face, none)]
  | .this => [(word "this", none)]
  | .paren c => (punct "(", none) :: (c.marked ++ [(punct ")", none)])

/-- The tokens of links, where `seen` says whether a link before them is optional. -/
def Links.marked (seen : Bool) : Links → List Marked
  | .nil => []
  | .member opt x rest =>
    (point opt, markOf opt seen) :: (x.face, none) :: rest.marked (seen || opt)
  | .index opt c rest =>
    (lead opt).map (·, markOf opt seen) ++
      (punct "[", none) :: (c.marked ++ (punct "]", none) :: rest.marked (seen || opt))
  | .call opt first more rest =>
    (lead opt).map (·, markOf opt seen) ++
      (punct "(", none) ::
        ((first.marked ++ more.marked) ++ (punct ")", none) :: rest.marked (seen || opt))

def Chains.marked : Chains → List Marked
  | .nil => []
  | .cons c rest => (punct ",", none) :: (c.marked ++ rest.marked)

end

/-- One of the links is optional. -/
def Links.optional : Links → Bool
  | .nil => false
  | .member opt _ rest | .index opt _ rest | .call opt _ _ rest => opt || rest.optional

mutual

/-- The number of chains in a chain, itself among them, that have an optional link of their own. -/
def Chain.optionals : Chain → Nat
  | .mk atom links => atom.optionals + links.inner + links.optional.toNat

def Atom.optionals : Atom → Nat
  | .name _ | .this => 0
  | .paren c => c.optionals

/-- The number of such chains in the indices and arguments of links. -/
def Links.inner : Links → Nat
  | .nil => 0
  | .member _ _ rest => rest.inner
  | .index _ c rest => c.optionals + rest.inner
  | .call _ first more rest => first.optionals + more.optionals + rest.inner

def Chains.optionals : Chains → Nat
  | .nil => 0
  | .cons c rest => c.optionals + rest.optionals

end

/-- The tokens of an assignment of a chain. -/
def assignment (x : Name script) (c : Chain) : List Face :=
  x.face :: op "=" :: (c.faces ++ [punct ";"])

/-- The tokens of the assignment, with marks on its decisions. -/
def assignmentMarked (x : Name script) (c : Chain) : List Marked :=
  (x.face, none) :: (op "=", none) :: (c.marked ++ [(punct ";", none)])

/-! ## Lemmas on the tokens -/

@[simp] theorem facesOf_lead (opt seen : Bool) :
    facesOf ((lead opt).map (·, markOf opt seen)) = lead opt := by
  cases opt <;> rfl

mutual

@[simp] theorem Chain.facesOf_marked : (c : Chain) → facesOf c.marked = c.faces
  | .mk atom links => by
    simp [Chain.marked, Chain.faces, atom.facesOf_marked, links.facesOf_marked false]

@[simp] theorem Atom.facesOf_marked : (atom : Atom) → facesOf atom.marked = atom.faces
  | .name _ => rfl
  | .this => rfl
  | .paren c => by simp [Atom.marked, Atom.faces, parens, c.facesOf_marked]

@[simp] theorem Links.facesOf_marked : (links : Links) → (seen : Bool) →
    facesOf (links.marked seen) = links.faces
  | .nil, _ => rfl
  | .member opt x rest, seen => by
    simp [Links.marked, Links.faces, rest.facesOf_marked (seen || opt)]
  | .index opt c rest, seen => by
    simp [Links.marked, Links.faces, c.facesOf_marked, rest.facesOf_marked (seen || opt)]
  | .call opt first more rest, seen => by
    simp [Links.marked, Links.faces, first.facesOf_marked, more.facesOf_marked,
      rest.facesOf_marked (seen || opt)]

@[simp] theorem Chains.facesOf_marked : (cs : Chains) → facesOf cs.marked = cs.faces
  | .nil => rfl
  | .cons c rest => by simp [Chains.marked, Chains.faces, c.facesOf_marked, rest.facesOf_marked]

end

@[simp] theorem facesOf_assignmentMarked (x : Name script) (c : Chain) :
    facesOf (assignmentMarked x c) = assignment x c := by
  simp [assignmentMarked, assignment]

theorem Chain.length_marked (c : Chain) : c.marked.length = c.faces.length := by
  rw [← length_facesOf, c.facesOf_marked]

theorem Atom.length_marked (atom : Atom) : atom.marked.length = atom.faces.length := by
  rw [← length_facesOf, atom.facesOf_marked]

theorem Chains.length_marked (cs : Chains) : cs.marked.length = cs.faces.length := by
  rw [← length_facesOf, cs.facesOf_marked]

theorem countMarks_point (opt seen : Bool) :
    (if markOf opt seen = some .optionalChain then 1 else 0) = (opt && !seen).toNat := by
  cases opt <;> cases seen <;> rfl

theorem countMarks_lead (opt seen : Bool) :
    countMarks .optionalChain ((lead opt).map (·, markOf opt seen)) = (opt && !seen).toNat := by
  cases opt <;> cases seen <;> rfl

/-- The first mark of links is one of the first link, or one behind it. -/
theorem first_or_later (opt seen later : Bool) :
    (opt && !seen).toNat + (later && !(seen || opt)).toNat = ((opt || later) && !seen).toNat := by
  cases opt <;> cases seen <;> cases later <;> rfl

mutual

theorem Chain.countMarks_marked : (c : Chain) → countMarks .optionalChain c.marked = c.optionals
  | .mk atom links => by
    rw [Chain.marked, countMarks_append, atom.countMarks_marked, links.countMarks_marked false,
      Chain.optionals, Bool.not_false, Bool.and_true, Nat.add_assoc]

theorem Atom.countMarks_marked : (atom : Atom) →
    countMarks .optionalChain atom.marked = atom.optionals
  | .name _ => rfl
  | .this => rfl
  | .paren c => by simp [Atom.marked, Atom.optionals, c.countMarks_marked]

/-- Of the marks of links, the first counts once, unless one stands before them. -/
theorem Links.countMarks_marked : (links : Links) → (seen : Bool) →
    countMarks .optionalChain (links.marked seen) = links.inner + (links.optional && !seen).toNat
  | .nil, _ => rfl
  | .member opt x rest, seen => by
    have hfirst := first_or_later opt seen rest.optional
    simp only [Links.marked, countMarks_cons, countMarks_point,
      rest.countMarks_marked (seen || opt), Links.inner, Links.optional, reduceCtorEq, if_false]
    omega
  | .index opt c rest, seen => by
    have hfirst := first_or_later opt seen rest.optional
    simp only [Links.marked, countMarks_append, countMarks_cons, countMarks_lead,
      c.countMarks_marked, rest.countMarks_marked (seen || opt), Links.inner, Links.optional,
      reduceCtorEq, if_false]
    omega
  | .call opt first more rest, seen => by
    have hfirst := first_or_later opt seen rest.optional
    simp only [Links.marked, countMarks_append, countMarks_cons, countMarks_lead,
      first.countMarks_marked, more.countMarks_marked, rest.countMarks_marked (seen || opt),
      Links.inner, Links.optional, reduceCtorEq, if_false]
    omega

theorem Chains.countMarks_marked : (cs : Chains) →
    countMarks .optionalChain cs.marked = cs.optionals
  | .nil => rfl
  | .cons c rest => by
    simp [Chains.marked, Chains.optionals, c.countMarks_marked, rest.countMarks_marked]

end

theorem tidy_lead {fs : List Face} (opt : Bool) (h : Tidy fs) : Tidy (lead opt ++ fs) := by
  cases opt with
  | false => exact h
  | true => exact h.cons rfl

theorem tidy_point {fs : List Face} (opt : Bool) (h : Tidy fs) : Tidy (point opt :: fs) := by
  cases opt <;> exact h.cons rfl

mutual

theorem Chain.tidy_faces : (c : Chain) → Tidy c.faces
  | .mk atom links => atom.tidy_faces.append links.tidy_faces

theorem Atom.tidy_faces : (atom : Atom) → Tidy atom.faces
  | .name _ => .cons rfl .nil
  | .this => .cons rfl .nil
  | .paren c => c.tidy_faces.parens

theorem Links.tidy_faces : (links : Links) → Tidy links.faces
  | .nil => .nil
  | .member opt _ rest => tidy_point opt (.cons rfl rest.tidy_faces)
  | .index opt c rest => tidy_lead opt (.group .square c.tidy_faces rest.tidy_faces)
  | .call opt first more rest =>
    tidy_lead opt (.group .round (first.tidy_faces.append more.tidy_faces) rest.tidy_faces)

theorem Chains.tidy_faces : (cs : Chains) → Tidy cs.faces
  | .nil => .nil
  | .cons c rest => .cons rfl (c.tidy_faces.append rest.tidy_faces)

end

theorem tidy_assignment (x : Name script) (c : Chain) : Tidy (assignment x c) :=
  .cons rfl (.cons rfl (c.tidy_faces.append (.cons rfl .nil)))

end Access

/-! ## The walk over a chain -/

namespace Code

open Access

variable {code : Code} {p i : Nat} {atom : Bool} {f : Face}

/-- No mark stands earlier in the chain that ends before a token. -/
abbrev unmarkedBefore (code : Code) (atom : Bool) (i : Nat) : Bool :=
  code.firstInChain script "?." atom i

theorem firstInChain_own (h : code.face? p = some (op "?.")) :
    code.unmarkedBefore atom (p + 1) = false := by
  rw [unmarkedBefore, firstInChain, text_of_face h]
  rfl

/-- The walk passes a word, unless another one follows. -/
theorem firstInChain_word (h : code.face? p = some f) (hk : f.1 = .identifier ∨ f.1 = .keyword)
    (hne : f.2 ≠ "?.") :
    code.unmarkedBefore atom (p + 1) = (atom || code.unmarkedBefore true p) := by
  have hword : code.isWord p = true := by
    rw [isWord_of_face h]
    rcases hk with hk | hk <;> simp [hk]
  rw [unmarkedBefore, firstInChain]
  simp only [text_of_face h, hword, beq_iff_eq, hne, if_false, Bool.true_or, if_true]
  cases atom <;> rfl

theorem firstInChain_point (h : code.face? p = some (punct ".")) :
    code.unmarkedBefore atom (p + 1) = code.unmarkedBefore false p := by
  rw [unmarkedBefore, firstInChain]
  simp [text_of_face h, isWord_of_face h, isKind_of_face h, closesGroup, isPunct_of_face h]

/-- Where a chain starts, the walk ends. -/
theorem firstInChain_edge (h : code.face? p = some f)
    (hf : f ∈ [op "=", punct "(", punct "[", punct ","]) :
    code.unmarkedBefore atom (p + 1) = true := by
  have hall : ∀ f ∈ [op "=", punct "(", punct "[", punct ","],
      linksChain script f.2 = false ∧ f.2 ≠ "?." := by decide
  have hlinks := hall f hf
  simp only [List.mem_cons, List.not_mem_nil, or_false] at hf
  rw [unmarkedBefore, firstInChain]
  rcases hf with rfl | rfl | rfl | rfl <;>
    simp [text_of_face h, isWord_of_face h, isKind_of_face h, closesGroup, isPunct_of_face h,
      isOp_of_face h, hlinks]

/-- The walk passes a group in brackets. -/
theorem firstInChain_group (atom : Bool) (hp : code.Paired) {b : Bracket}
    (hb : b = .round ∨ b = .square) {inner : List Face}
    (h : code.Spells i (punct b.opening :: (inner ++ [punct b.closing])))
    (hinner : Balanced inner) :
    code.unmarkedBefore atom (i + 1 + inner.length + 1) = code.unmarkedBefore false i := by
  have hclose := (spells_cons.mp (spells_append.mp (spells_cons.mp h).2).2).1
  have hopener := h.opener? hp b hinner
  have hgroup : code.closesGroup (i + 1 + inner.length) = true := by
    rcases hb with rfl | rfl <;> simp [closesGroup, isPunct_of_face hclose, Bracket.closing]
  have hown : code.text (i + 1 + inner.length) ≠ "?." := by
    rw [text_of_face hclose]
    rcases hb with rfl | rfl <;> decide
  have hatom : (code.isWord (i + 1 + inner.length) || code.isKind (i + 1 + inner.length) .number ||
      code.isKind (i + 1 + inner.length) .stringLiteral) = false := by
    simp [isWord_of_face hclose, isKind_of_face hclose]
  rw [unmarkedBefore, firstInChain]
  simp only [beq_iff_eq, hown, hatom, hgroup, Bool.false_eq_true, if_false, if_true]
  split
  · rename_i o ho
    rw [hopener] at ho
    cases ho
    rfl
  · rename_i ho
    rw [hopener] at ho
    cases ho

/-- The mark of a link is a decision if no mark stands earlier in its chain. -/
theorem categoryAt_mark (h : code.face? i = some (op "?.")) :
    code.categoryAt script i =
      if code.unmarkedBefore false i then some .optionalChain else none := by
  have hr : (⟨"?.", .optionalChain, 1, { firstInChain := true }⟩ : DecisionRule) ∈
      script.decisions := by decide
  have hguard : code.guardHolds script { firstInChain := true } [] i =
      code.unmarkedBefore false i := by
    simp [guardHolds, guardFits, text_of_face h]
  rw [categoryAt, ruleAt?_of_mem (by decide) hr h (Or.inr rfl), hguard]
  split <;> rfl

end Code

/-! ## Reading chains -/

namespace Access

open Code

/-- Texts that are no names. -/
def symbols : List String := ["?.", "class"]

/-- The words with a meaning are no names of JavaScript. -/
theorem nameless : (script.specials ++ symbols).all (!script.isName ·) = true := by
  rw [show script = _ from Language.JavaScript.canonical_eq]
  decide +kernel

/-- The tokens of chains that make no decision. -/
def inert : List Face :=
  [punct "(", punct ")", punct "[", punct "]", punct ",", punct ";", punct ".", op "=",
    word "this"]

/-- The tokens that may follow a chain. -/
def ends : List Face := [punct ";", punct ",", punct ")", punct "]"]

/-- The tokens that may follow a name in a chain. -/
def followers : List Face := ends ++ [punct ".", op "?.", punct "[", punct "("]

variable {code : Code} {i : Nat} {x : Name script} {g : Face}

theorem name_ne (x : Name script) : x.text ≠ "?." ∧ x.text ≠ "class" := by
  have h := x.not_mem nameless
  simp only [symbols, List.mem_append, List.mem_cons, List.not_mem_nil, or_false, not_or] at h
  exact h.2

theorem name_special (x : Name script) : x.text ∉ script.specials := by
  have h := x.not_mem nameless
  rw [List.mem_append, not_or] at h
  exact h.1

theorem reads_plain {f : Face} {ms : List Marked} (h : code.face? i = some f) (hf : f ∈ inert)
    (hms : Reads code script (i + 1) ms) : Reads code script i ((f, none) :: ms) := by
  have hall : ∀ f ∈ inert, script.isPlain f = true := by decide
  exact hms.plain h (hall f hf)

/-- Behind a name in a chain come its links, or what follows the chain. -/
theorem next_links {links : Links} (h : code.Spells i links.faces)
    (hg : code.face? (i + links.faces.length) = some g) (hend : g ∈ ends) :
    ∃ f, code.face? i = some f ∧ f ∈ followers := by
  cases links with
  | nil => exact ⟨g, hg, List.mem_append_left _ hend⟩
  | member opt x rest =>
    refine ⟨_, (spells_cons.mp h).1, ?_⟩
    cases opt <;> decide
  | index opt c rest =>
    cases opt with
    | false => exact ⟨_, (spells_cons.mp h).1, by decide⟩
    | true => exact ⟨_, (spells_cons.mp h).1, by decide⟩
  | call opt first more rest =>
    cases opt with
    | false => exact ⟨_, (spells_cons.mp h).1, by decide⟩
    | true => exact ⟨_, (spells_cons.mp h).1, by decide⟩

/-- A name starts no function if no parameters and no body follow it. -/
theorem quiet_apart (hx : code.face? i = some x.face) (hg : code.face? (i + 1) = some g)
    (hgroup : g.2 ∉ ["(", "<", "\x7b"]) : Quiet code script.signatures i := by
  have hspecial := name_special x
  simp only [Language.specials, List.mem_append, not_or] at hspecial
  simp only [List.mem_cons, List.not_mem_nil, or_false, not_or] at hgroup
  have hcontainer : code.containerAt? script.signatures i = none :=
    containerAt?_of_text hx fun hmem => (name_ne x).2 (List.mem_singleton.mp hmem)
  refine quiet_of_name hx hcontainer hspecial.1.1 hspecial.1.2 hg
    (fun heq => hgroup.2.2 (by rw [heq])) fun hparams => ?_
  have hskip : code.skipTypeParams script.signatures (i + 1) = i + 1 := rfl
  rw [hskip, params?, if_neg (by simp [isPunct_of_face hg, hgroup.1])] at hparams
  cases hparams

/-- A name in a chain starts no function, whatever its links are. -/
theorem quiet_name (hp : code.Paired) {links : Links} (h : code.Spells i (x.face :: links.faces))
    (hg : code.face? (i + 1 + links.faces.length) = some g) (hend : g ∈ ends) :
    Quiet code script.signatures i := by
  obtain ⟨hx, hlinks⟩ := spells_cons.mp h
  have hlone : ∀ f ∈ ends, f.2 ∉ ["(", "<", "\x7b"] := by decide
  cases links with
  | nil => exact quiet_apart hx hg (hlone g hend)
  | member opt y rest =>
    refine quiet_apart hx (spells_cons.mp hlinks).1 ?_
    cases opt <;> decide
  | index opt c rest =>
    cases opt with
    | false => exact quiet_apart hx (spells_cons.mp hlinks).1 (by decide)
    | true => exact quiet_apart hx (spells_cons.mp hlinks).1 (by decide)
  | call opt first more rest =>
    cases opt with
    | true => exact quiet_apart hx (spells_cons.mp hlinks).1 (by decide)
    | false =>
      -- The arguments look like parameters, but no body follows them.
      have hspecial := name_special x
      simp only [Language.specials, List.mem_append, not_or] at hspecial
      have hsplit : x.face :: (Links.call false first more rest).faces =
          (x.face :: parens (first.faces ++ more.faces)) ++ rest.faces := by
        simp [Links.faces, lead, parens]
      rw [hsplit] at h
      obtain ⟨hcall, hrest⟩ := spells_append.mp h
      have hlen : i + 1 + (Links.call false first more rest).faces.length =
          i + (x.face :: parens (first.faces ++ more.faces)).length + rest.faces.length := by
        have := congrArg List.length hsplit
        rw [List.length_append, List.length_cons] at this
        omega
      rw [hlen] at hg
      obtain ⟨f, hf, hfollow⟩ := next_links hrest hg hend
      rw [List.length_cons, Nat.add_comm (parens _).length, ← Nat.add_assoc] at hf
      have hall : ∀ f ∈ followers, f ≠ punct "\x7b" ∧ f.2 ∉ script.signatures.clauseKeywords := by
        decide
      exact quiet_of_call hp hcall (first.tidy_faces.append more.tidy_faces).balanced
        hspecial.1.1 hspecial.1.2 hf (hall f hfollow).1 (Option.some_ne_none f.2).symm
        (hall f hfollow).2 rfl

/-- A name in a chain makes no decision. -/
theorem reads_name (hp : code.Paired) {links : Links} {ms : List Marked}
    (h : code.Spells i (x.face :: links.faces))
    (hg : code.face? (i + 1 + links.faces.length) = some g) (hend : g ∈ ends)
    (hms : Reads code script (i + 1) ms) : Reads code script i ((x.face, none) :: ms) := by
  have hspecial := name_special x
  simp only [Language.specials, List.mem_append, not_or] at hspecial
  exact hms.cons (quiet_name hp h hg hend)
    (categoryAt_eq_none (spells_cons.mp h).1 hspecial.2)

/-- A mark of a link is a decision if no mark stands before it. -/
theorem reads_mark {seen : Bool} {ms : List Marked} (h : code.face? i = some (op "?."))
    (hseen : code.unmarkedBefore false i = !seen) (hms : Reads code script (i + 1) ms) :
    Reads code script i ((op "?.", markOf true seen) :: ms) := by
  refine hms.cons (quiet_of_isQuiet h (by decide)) ?_
  rw [categoryAt_mark h, hseen]
  cases seen <;> rfl

/-- The token before the name of a member, and what the walk knows behind it. -/
theorem reads_point {opt seen : Bool} {ms : List Marked} (h : code.face? i = some (point opt))
    (hseen : code.unmarkedBefore false i = !seen) (hms : Reads code script (i + 1) ms) :
    Reads code script i ((point opt, markOf opt seen) :: ms) ∧
      code.unmarkedBefore true (i + 1) = !(seen || opt) := by
  cases opt with
  | false =>
    refine ⟨reads_plain h (by decide) hms, ?_⟩
    rw [firstInChain_point h, hseen, Bool.or_false]
  | true =>
    refine ⟨reads_mark h hseen hms, ?_⟩
    rw [firstInChain_own h, Bool.or_true]
    rfl

/-- The token before an index or arguments, and what the walk knows behind it. -/
theorem reads_lead {opt seen : Bool} (h : code.Spells i (lead opt))
    (hseen : code.unmarkedBefore false i = !seen) :
    Reads code script i ((lead opt).map (·, markOf opt seen)) ∧
      code.unmarkedBefore false (i + (lead opt).length) = !(seen || opt) := by
  cases opt with
  | false => exact ⟨.nil, by rw [Bool.or_false]; exact hseen⟩
  | true =>
    have hmark := (spells_cons.mp h).1
    refine ⟨reads_mark hmark hseen .nil, ?_⟩
    rw [Bool.or_true]
    exact firstInChain_own hmark

/-- A link in brackets: its mark, what stands in the brackets, and the links behind it. -/
theorem reads_link (hp : code.Paired) {b : Bracket} (hb : b = .round ∨ b = .square)
    {opt seen : Bool} {fs rest : List Face} {inner ms : List Marked} (hfaces : facesOf inner = fs)
    (hbalanced : Balanced fs)
    (h : code.Spells i (lead opt ++ punct b.opening :: (fs ++ punct b.closing :: rest)))
    (hseen : code.unmarkedBefore false i = !seen)
    (hg : code.face? (i + (lead opt ++
      punct b.opening :: (fs ++ punct b.closing :: rest)).length) = some g)
    (hinner : ∀ {j}, code.Spells j fs → (∀ atom, code.unmarkedBefore atom j = true) →
      code.face? (j + fs.length) = some (punct b.closing) → Reads code script j inner)
    (hms : ∀ {j}, code.Spells j rest → code.unmarkedBefore false j = !(seen || opt) →
      code.face? (j + rest.length) = some g → Reads code script j ms) :
    Reads code script i ((lead opt).map (·, markOf opt seen) ++
      (punct b.opening, none) :: (inner ++ (punct b.closing, none) :: ms)) := by
  have hplain : script.isPlain (punct b.opening) = true ∧
      script.isPlain (punct b.closing) = true ∧
        punct b.opening ∈ [op "=", punct "(", punct "[", punct ","] := by
    rcases hb with rfl | rfl <;> decide
  obtain ⟨hlead, h⟩ := spells_append.mp h
  obtain ⟨hfirst, hwalk⟩ := reads_lead hlead hseen
  have hgroup : code.Spells (i + (lead opt).length)
      ((punct b.opening :: (fs ++ [punct b.closing])) ++ rest) := by simpa using h
  have hskip := firstInChain_group false hp hb (spells_append.mp hgroup).1 hbalanced
  obtain ⟨hopen, h⟩ := spells_cons.mp h
  obtain ⟨hin, h⟩ := spells_append.mp h
  obtain ⟨hclose, hrest⟩ := spells_cons.mp h
  have hlen : i + (lead opt ++ punct b.opening :: (fs ++ punct b.closing :: rest)).length =
      i + (lead opt).length + 1 + fs.length + 1 + rest.length := by
    simp only [List.length_append, List.length_cons]
    omega
  rw [hlen] at hg
  have hreads := hinner hin (fun _ => firstInChain_edge hopen hplain.2.2) hclose
  have hbehind := hms hrest (hskip.trans hwalk) hg
  rw [← hfaces, length_facesOf] at hclose hbehind
  have htail := hreads.group hopen hclose hplain.1 hplain.2.1 hbehind
  have hleadlen : (lead opt).length = ((lead opt).map (·, markOf opt seen)).length :=
    (List.length_map ..).symm
  rw [hleadlen] at htail
  exact hfirst.append htail

/-- Behind an argument comes a comma or the parenthesis. -/
theorem next_chain {cs : Chains} (h : code.Spells i cs.faces)
    (hclose : code.face? (i + cs.faces.length) = some (punct ")")) :
    ∃ g, code.face? i = some g ∧ g ∈ ends := by
  cases cs with
  | nil => exact ⟨_, hclose, by decide⟩
  | cons c rest => exact ⟨_, (spells_cons.mp h).1, by decide⟩

mutual

/-- The scorer sees the marked decisions of a chain that starts where the walk ends. -/
theorem Chain.reads (hp : code.Paired) : (c : Chain) → {i : Nat} → {g : Face} →
    code.Spells i c.faces → (∀ atom, code.unmarkedBefore atom i = true) →
      code.face? (i + c.faces.length) = some g → g ∈ ends → Reads code script i c.marked
  | .mk atom links, i, g, h, hstart, hg, hend => by
    obtain ⟨hatom, hlinks⟩ := spells_append.mp h
    rw [Chain.faces, List.length_append, ← Nat.add_assoc] at hg
    obtain ⟨hreads, hwalk⟩ := atom.reads hp hatom hstart (by
      rintro x rfl
      exact quiet_name hp h hg hend)
    have hrest : Reads code script _ (links.marked false) := links.reads hp hlinks hwalk hg hend
    rw [← atom.length_marked] at hrest
    exact hreads.append hrest

/-- What a chain starts with makes no decision of its own, and no mark stands in it that the walk
would see. -/
theorem Atom.reads (hp : code.Paired) : (atom : Atom) → {i : Nat} → code.Spells i atom.faces →
    (∀ atom, code.unmarkedBefore atom i = true) →
      (∀ x, atom = .name x → Quiet code script.signatures i) →
        Reads code script i atom.marked ∧
          code.unmarkedBefore false (i + atom.faces.length) = true
  | .name x, i, h, hstart, hquiet => by
    have hx := (spells_cons.mp h).1
    have hspecial := name_special x
    simp only [Language.specials, List.mem_append, not_or] at hspecial
    refine ⟨Reads.nil.cons (hquiet x rfl) (categoryAt_eq_none hx hspecial.2), ?_⟩
    exact (firstInChain_word hx (Or.inl rfl) (name_ne x).1).trans (hstart true)
  | .this, i, h, hstart, _ => by
    have hthis := (spells_cons.mp h).1
    refine ⟨reads_plain hthis (by decide) .nil, ?_⟩
    exact (firstInChain_word hthis (Or.inr rfl) (by decide)).trans (hstart true)
  | .paren c, i, h, hstart, _ => by
    obtain ⟨hopen, hc, hclose⟩ := spells_parens h
    have hinner := c.reads hp hc (fun _ => firstInChain_edge hopen (by decide)) hclose (by decide)
    rw [← c.length_marked] at hclose
    refine ⟨hinner.group hopen hclose (by decide) (by decide) .nil, ?_⟩
    have hgroup : code.unmarkedBefore false (i + 1 + c.faces.length + 1) =
        code.unmarkedBefore false i :=
      firstInChain_group false hp (Or.inl rfl) h c.tidy_faces.balanced
    have hlen : i + (Atom.paren c).faces.length = i + 1 + c.faces.length + 1 := by
      rw [Atom.faces, length_parens]
      omega
    rw [hlen]
    exact hgroup.trans (hstart false)

/-- The scorer sees the first mark of links, unless one stands before them, and the decisions of the
chains in them. -/
theorem Links.reads (hp : code.Paired) : (links : Links) → {i : Nat} → {seen : Bool} → {g : Face} →
    code.Spells i links.faces → code.unmarkedBefore false i = !seen →
      code.face? (i + links.faces.length) = some g → g ∈ ends →
        Reads code script i (links.marked seen)
  | .nil, _, _, _, _, _, _, _ => .nil
  | .member opt x rest, i, seen, g, h, hseen, hg, hend => by
    obtain ⟨hpoint, hname⟩ := spells_cons.mp h
    obtain ⟨hx, hrest⟩ := spells_cons.mp hname
    have hlen : i + (Links.member opt x rest).faces.length = i + 1 + 1 + rest.faces.length := by
      simp only [Links.faces, List.length_cons]
      omega
    rw [hlen] at hg
    have hwalk : code.unmarkedBefore false (i + 1 + 1) = code.unmarkedBefore true (i + 1) :=
      firstInChain_word hx (Or.inl rfl) (name_ne x).1
    have hbehind := (reads_point hpoint hseen .nil).2
    have hreads := rest.reads hp hrest (hwalk.trans hbehind) hg hend
    exact (reads_point hpoint hseen (reads_name hp hname hg hend hreads)).1
  | .index opt c rest, _, _, _, h, hseen, hg, hend =>
    reads_link hp (b := .square) (Or.inr rfl) c.facesOf_marked c.tidy_faces.balanced h hseen hg
      (fun hc hstart hclose => c.reads hp hc hstart hclose (by decide))
      (fun hrest hwalk hnext => rest.reads hp hrest hwalk hnext hend)
  | .call opt first more rest, _, _, _, h, hseen, hg, hend => by
    have hfaces : facesOf (first.marked ++ more.marked) = first.faces ++ more.faces := by simp
    refine reads_link hp (b := .round) (Or.inl rfl) hfaces
      (first.tidy_faces.append more.tidy_faces).balanced h hseen hg
      (fun hargs hstart hclose => ?_)
      (fun hrest hwalk hnext => rest.reads hp hrest hwalk hnext hend)
    obtain ⟨hc, hmore⟩ := spells_append.mp hargs
    rw [List.length_append, ← Nat.add_assoc] at hclose
    obtain ⟨f, hf, hfend⟩ := next_chain hmore hclose
    have hothers := more.reads hp hmore hclose
    rw [← first.length_marked] at hothers
    exact (first.reads hp hc hstart hf hfend).append hothers

theorem Chains.reads (hp : code.Paired) : (cs : Chains) → {i : Nat} → code.Spells i cs.faces →
    code.face? (i + cs.faces.length) = some (punct ")") → Reads code script i cs.marked
  | .nil, _, _, _ => .nil
  | .cons c rest, i, h, hclose => by
    obtain ⟨hcomma, h⟩ := spells_cons.mp h
    obtain ⟨hc, hrest⟩ := spells_append.mp h
    have hlen : i + (Chains.cons c rest).faces.length =
        i + 1 + c.faces.length + rest.faces.length := by
      simp only [Chains.faces, List.length_append, List.length_cons]
      omega
    rw [hlen] at hclose
    obtain ⟨g, hg, hend⟩ := next_chain hrest hclose
    have hreads := rest.reads hp hrest hclose
    rw [← c.length_marked] at hreads
    have hinner := c.reads hp hc (fun _ => firstInChain_edge hcomma (by decide)) hg hend
    exact reads_plain hcomma (by decide) (hinner.append hreads)

end

/-- The scorer sees the marked decisions of an assignment. -/
theorem reads_assignment (hp : code.Paired) {c : Chain} (h : code.Spells i (assignment x c)) :
    Reads code script i (assignmentMarked x c) := by
  obtain ⟨hx, h⟩ := spells_cons.mp h
  obtain ⟨heq, h⟩ := spells_cons.mp h
  obtain ⟨hc, h⟩ := spells_append.mp h
  have hsemi := (spells_cons.mp h).1
  have hchain := c.reads hp hc (fun _ => firstInChain_edge heq (by decide)) hsemi (by decide)
  have hlast : Reads code script _ [(punct ";", none)] := reads_plain hsemi (by decide) .nil
  rw [← c.length_marked] at hlast
  exact (reads_plain heq (by decide) (hchain.append hlast)).lone (name_special x) hx heq
    (by decide) (by decide)

end Access

/-! ## The chains of a function -/

open Access

/-- In JavaScript, a function that assigns a chain is found.  Its decisions are the first marks of
the chains that have one among their own links, of the chain itself and of every chain in its
brackets, arguments and parentheses, and there are no others. -/
theorem analyze_optionalChains (file source : String) (m x : Name script) (c : Access.Chain)
    (hfaces : (Code.ofSource script source).faces =
      functionUnit "function" m.text (assignment x c)) :
    ∃ ds, FindsOne (({} : Engine).analyze file source "javascript") m.text ds ∧
      ds.map Decision.place = (Code.ofSource script source).placed 5 (assignmentMarked x c) ∧
      ds.countP (·.category == .optionalChain) = c.optionals := by
  have hl : Registry.builtin.lookup? "javascript" = some script := rfl
  have hp := Code.paired_ofSource script source
  have hinner := (Code.spells_braces (Code.spells_functionUnit hfaces)).2.1
  have hbalanced : Balanced (facesOf (assignmentMarked x c)) := by
    rw [facesOf_assignmentMarked]
    exact (tidy_assignment x c).balanced
  rw [← facesOf_assignmentMarked] at hfaces
  obtain ⟨ds, hfinds, hplaces⟩ := analyze_functionUnit hl file source
    (introduces_function m) hfaces hbalanced (reads_assignment hp hinner) fun y _ _ _ => by
      rw [Language.JavaScript.hasLoops.blockless]
      exact List.not_mem_nil
  have hcount : ds.countP (·.category == .optionalChain) = c.optionals := by
    have hmarks : countMarks .optionalChain (assignmentMarked x c) = c.optionals := by
      simp [assignmentMarked, c.countMarks_marked]
    rw [← hmarks]
    exact Code.countP_of_placed hplaces .optionalChain
  exact ⟨ds, hfinds, hplaces, hcount⟩

/-- Some names of JavaScript. -/
theorem Language.JavaScript.letters :
    ∀ s ∈ ["f", "x", "a", "b", "c", "d", "e"], script.isName s = true := by
  rw [show script = _ from Language.JavaScript.canonical_eq]
  decide +kernel

namespace Access

/-- A chain with three marks.  One more stands in its index and one in its arguments, and the chain
in its parentheses has none. -/
def tangled (a b c d e : Name script) : Chain :=
  .mk (.paren (.mk (.name a) (.member false b .nil)))
    (.member true c (.index false (.mk .this (.member true d .nil))
      (.call true (.mk (.name e) .nil)
        (.cons (.mk (.name a) (.index true (.mk (.name b) .nil) .nil)) .nil)
        (.member true c .nil))))

/-- A function that assigns the chain `tangled`, over two lines. -/
def tangledFunction : String :=
  "function f() \x7b x = (a.b)?.c[this?.d]?.(e,\n  a?.[b])?.c; \x7d"

end Access

/-- In a tangled chain, three of five marks count. -/
theorem analyze_optionalChains_tangled :
    ∃ r f, ({} : Engine).analyze "f.js" tangledFunction "javascript" = .ok r ∧ r.all = [f] ∧
      f.decisions.countP (·.category == .optionalChain) = 3 := by
  let m : Name script := ⟨"f", Language.JavaScript.letters _ (by decide)⟩
  let x : Name script := ⟨"x", Language.JavaScript.letters _ (by decide)⟩
  let a : Name script := ⟨"a", Language.JavaScript.letters _ (by decide)⟩
  let b : Name script := ⟨"b", Language.JavaScript.letters _ (by decide)⟩
  let c : Name script := ⟨"c", Language.JavaScript.letters _ (by decide)⟩
  let d : Name script := ⟨"d", Language.JavaScript.letters _ (by decide)⟩
  let e : Name script := ⟨"e", Language.JavaScript.letters _ (by decide)⟩
  have hfaces : (Code.ofSource script tangledFunction).faces =
      functionUnit "function" m.text (assignment x (tangled a b c d e)) := by
    change _ = functionUnit _ "f" [(.identifier, "x"), op "=", punct "(", (.identifier, "a"),
      punct ".", (.identifier, "b"), punct ")", op "?.", (.identifier, "c"), punct "[",
      word "this", op "?.", (.identifier, "d"), punct "]", op "?.", punct "(",
      (.identifier, "e"), punct ",", (.identifier, "a"), op "?.", punct "[", (.identifier, "b"),
      punct "]", punct ")", op "?.", (.identifier, "c"), punct ";"]
    rw [Code.ofSource_eq_ofChars script tangledFunction rfl,
      show script = _ from Language.JavaScript.canonical_eq]
    decide +kernel
  obtain ⟨ds, hfinds, hplaces, hcount⟩ :=
    analyze_optionalChains "f.js" tangledFunction m x (tangled a b c d e) hfaces
  have hlength : (assignmentMarked x (tangled a b c d e)).length = 27 := rfl
  obtain ⟨r, f, hr, hall, -, rfl, -⟩ := hfinds.of_marked hplaces (by rw [hlength]; decide)
  exact ⟨r, f, hr, hall, hcount⟩

end Cyclomatic
