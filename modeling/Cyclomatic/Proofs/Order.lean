import Cyclomatic.Proofs.Forest
import Cyclomatic.Proofs.Walk
import Mathlib.Data.List.Chain
import Mathlib.Data.List.TakeWhile

/-!
# The order of the functions

The walk lists functions in the order of their bodies and links each to the innermost function
scope.  `Walk.Ordered` collects what this says of the functions found so far and of the open
scopes: the recorded places agree with the tokens, the links agree, a function starts after every
earlier body was opened, and it is separate from an earlier function unless its scopes lie above
those of that function.

Nothing here depends on the words of the table.  Where a body ends does, and is the subject of
`Cyclomatic.Proofs.Nesting`.
-/

namespace Cyclomatic

/-! ## The parts of a signature -/

/-- The parts of a signature found at a token stand in order: the name, the arrow or keyword that
binds it, and the brace or the end. -/
structure Signature.Forward (code : Code) (i : Nat) (s : Signature) : Prop where
  /-- It starts at the token. -/
  anchor : s.anchor = i
  /-- The name is this token or a later one. -/
  le_name : i ≤ s.name
  /-- A body opens with a brace after the name. -/
  body : ∀ {brace}, s.tail = .body brace → s.name < brace ∧ code.isPunct brace "\x7b" = true
  /-- What binds it stands before the body. -/
  binding : ∀ {b brace}, s.binding = some b → s.tail = .body brace → i < b ∧ b < brace
  /-- A declaration ends after the name. -/
  terminated : ∀ {resume}, s.tail = .terminated resume → s.name < resume

namespace Code

variable {code : Code} {rules : SignatureRules} {i j k : Nat} {s : Signature}

theorem le_resume {resume : Nat} (h : code.tailAt? rules j = some (.terminated resume)) :
    j ≤ resume := by
  have hle := code.le_tailStart rules j
  rw [tailAt?_eq] at h
  dsimp only at h
  split at h
  · cases h
  · split at h
    · cases h
      omega
    · split at h <;> cases h
      exact hle

/-- The brace or the end of a signature comes after its parameters. -/
theorem Takes.forward (hp : code.Paired) {tail : Tail} (h : code.Takes rules j tail) :
    (∀ {brace}, tail = .body brace → j < brace ∧ code.isPunct brace "\x7b" = true) ∧
      ∀ {resume}, tail = .terminated resume → j < resume := by
  obtain ⟨close, hclose, htail⟩ := h
  have hparams := code.le_skipTypeParams rules hp j
  have hlt := code.params?_lt hp hclose
  constructor
  · rintro brace rfl
    obtain ⟨rfl, hbrace⟩ := code.tailAt?_body rules htail
    have hle := code.le_tailStart rules (close + 1)
    exact ⟨by omega, hbrace⟩
  · rintro resume rfl
    have hle := le_resume htail
    omega

/-- A signature without binding, whose parameters come after the name. -/
theorem forward_of_takes (hp : code.Paired) (hanchor : s.anchor = i) (hname : i ≤ s.name)
    (hbinding : s.binding = none) (htakes : code.Takes rules (s.name + 1) s.tail) :
    s.Forward code i where
  anchor := hanchor
  le_name := hname
  body ht := ⟨Nat.lt_of_succ_lt ((htakes.forward hp).1 ht).1, ((htakes.forward hp).1 ht).2⟩
  binding hb := by
    rw [hbinding] at hb
    cases hb
  terminated ht := Nat.lt_of_succ_lt ((htakes.forward hp).2 ht)

/-- A signature whose name is bound to a function. -/
theorem forward_of_binding {b brace : Nat} (hb : i + 1 < b) (hlt : b < brace)
    (hbrace : code.isPunct brace "\x7b" = true) :
    Signature.Forward code i
      { form := .arrow, anchor := i, name := i + 1, binding := some b, tail := .body brace } where
  anchor := rfl
  le_name := Nat.le_succ i
  body ht := by
    cases ht
    exact ⟨Nat.lt_trans hb hlt, hbrace⟩
  binding hb' ht := by
    cases hb'
    cases ht
    exact ⟨Nat.lt_of_succ_lt hb, hlt⟩
  terminated ht := nomatch ht

theorem Binds.lt (h : code.Binds rules i j) : i + 1 < j := by
  have hequals := code.le_skipReturnType rules (i + 2)
  have hvalue := code.le_skipModifiers rules (code.skipReturnType rules (i + 2) + 1)
  rw [h.value] at hvalue
  omega

theorem le_afterArrowParams? (hp : code.Paired) (h : code.afterArrowParams? rules j = some k) :
    j ≤ k := by
  rcases afterArrowParams?_cases h with ⟨hparen, close, hclose, rfl⟩ | ⟨-, rfl⟩
  · exact (Ahead.partner hp (s := .round) hparen hclose).le.trans (code.le_skipReturnType rules _)
  · exact Nat.le_succ j

/-- The parts of a signature stand in order, whatever the words of the table are. -/
theorem signatureAt_forward (hp : code.Paired) {scopes : List Scope}
    (h : code.signatureAt rules scopes i = .ok (some s)) : s.Forward code i := by
  cases signatureAt_shape h with
  | compact _ hbrace =>
    exact
      { anchor := rfl
        le_name := Nat.le_refl i
        body := by rintro brace ⟨⟩; exact ⟨Nat.lt_succ_self i, hbrace⟩
        binding := nofun
        terminated := nofun }
  | introduced _ hmarkers hreceiver hname htakes =>
    have hfirst := (code.le_skipMarkers rules hmarkers).trans (code.le_skipGenerics rules _)
    have hnamed := (Ahead.receiver hp hreceiver).le.trans (code.nameAt?_le rules hname)
    exact forward_of_takes hp rfl (Nat.le_of_succ_le (hfirst.trans hnamed)) rfl htakes
  | arrow hbinds _ hparams _ hbrace =>
    have hle := (code.le_skipGenerics rules _).trans (le_afterArrowParams? hp hparams)
    exact forward_of_binding (hbinds.lt.trans_le hle) (Nat.lt_succ_self _) hbrace
  | bound hbinds _ hmarkers htakes =>
    obtain ⟨hlt, hbrace⟩ := (htakes.forward hp).1 rfl
    have hbody := (Ahead.ownName _).le.trans_lt hlt
    have hmarked := Nat.lt_of_succ_le (code.le_skipMarkers rules hmarkers)
    exact forward_of_binding hbinds.lt (hmarked.trans hbody) hbrace
  | typed _ _ _ _ htakes => exact forward_of_takes hp rfl (Nat.le_refl i) rfl htakes

end Code

/-! ## What the walk keeps -/

/-- The recorded place of a function agrees with the tokens. -/
structure Entity.Placed (code : Code) (e : Entity) : Prop where
  /-- The body starts with a brace. -/
  brace : code.isPunct e.opening "\x7b" = true
  /-- The signature comes before the body. -/
  start_le : e.start ≤ e.opening
  /-- What binds the function to a name belongs to the signature. -/
  binding : ∀ {b}, e.binding = some b → e.start < b ∧ b < e.opening
  /-- The first byte is that of the signature. -/
  startByte : e.span.startByte = code.offset e.start
  /-- The last byte is that of the closing brace or of the source. -/
  endByte : e.span.endByte = ((e.close.bind code.token?).map (·.stop)).getD code.bytes
  /-- The first line is that of the signature. -/
  startLine : e.span.startLine = code.lineOf e.start
  /-- The last line is that of the closing brace or of the source. -/
  endLine : e.span.endLine = (e.close.map code.lineOf).getD code.lastLine
  /-- The closing brace belongs to this function or to one around it. -/
  body : ∀ {c}, e.close = some c → ∃ o, o ≤ e.opening ∧ code.Body o c
  /-- It is the partner of the opening brace, if that has one. -/
  own : ∀ {d}, code.partner? e.opening = some d → e.close = some d

theorem Entity.Placed.adopt {code : Code} {e : Entity} (h : e.Placed code) (yes : Bool)
    (id : Nat) : (e.adopt yes id).Placed code := by
  cases yes <;> exact ⟨h.brace, h.start_le, h.binding, h.startByte, h.endByte, h.startLine,
    h.endLine, h.body, h.own⟩

/-- The first function of two opens and ends before the second one. -/
def Forest.Follow (forest : Forest) (size a b : Nat) : Prop :=
  ∀ {x y}, forest.at? a = some x → forest.at? b = some y →
    x.opening < y.opening ∧ x.last size < y.start

/-- A function ends at the last token or before it. -/
theorem Entity.Placed.last_le {code : Code} {e : Entity} (h : e.Placed code) :
    e.last code.size ≤ code.size - 1 := by
  unfold Entity.last
  cases hc : e.close with
  | none => exact Nat.le_refl _
  | some c =>
    obtain ⟨o, -, b⟩ := h.body hc
    exact Nat.le_sub_one_of_lt (code.lt_size_of_isPunct b.close)

/-- The position of the function of a scope. -/
def Scope.id? (s : Scope) : Option Nat := s.function?.map (·.1)

theorem Scope.function?_close {s : Scope} {id : Nat} {close : Option Nat}
    (h : s.function? = some (id, close)) : s.close = close := by
  unfold function? at h
  split at h
  · cases h
    rfl
  · cases h

namespace Walk

/-- The positions of the functions whose scopes are open, innermost first. -/
def openIds (scopes : List Scope) : List Nat := scopes.filterMap Scope.id?

/-- What holds when the walk comes to token `i`. -/
structure Ordered (code : Code) (i : Nat) (w : Walk) : Prop where
  /-- The functions are where they are recorded to be, before the token. -/
  placed : ∀ {id e}, w.forest.at? id = some e → e.Placed code ∧ e.opening < i
  /-- A function scope is the scope of a function. -/
  known : ∀ s ∈ w.scopes, ∀ {id close}, s.function? = some (id, close) →
    ∃ e, w.forest.at? id = some e ∧ e.close = close
  /-- A function scope lies directly above that of the function around it. -/
  chain : (openIds w.scopes).IsChain fun a b =>
    ∃ e, w.forest.at? a = some e ∧ e.parent = some b
  /-- A function has an open scope or is closed. -/
  settled : ∀ {id e}, w.forest.at? id = some e →
    id ∈ openIds w.scopes ∨ ∃ d, e.close = some d ∧ d < i
  /-- The links between the functions agree. -/
  linked : w.forest.Linked
  /-- A body without closing brace of its own ends with the function around it. -/
  borrowed : ∀ {id e}, w.forest.at? id = some e → code.partner? e.opening = none →
    (e.parent = none ∧ e.close = none) ∨
      ∃ p q, e.parent = some p ∧ w.forest.at? p = some q ∧ e.close = q.close
  /-- A function starts after the earlier bodies were opened. -/
  opens : ∀ {a b x y}, w.forest.at? a = some x → w.forest.at? b = some y → a < b →
    x.opening < y.start
  /-- It starts after an earlier function ends, or lies inside one that is not before it. -/
  apart : ∀ {a b x y}, w.forest.at? a = some x → w.forest.at? b = some y → a < b →
    (∃ d, x.close = some d ∧ d < y.start) ∨ ∃ p, y.parent = some p ∧ a ≤ p

variable {code : Code} {rules : SignatureRules} {i : Nat} {w : Walk}

theorem openIds_cons (s : Scope) (scopes : List Scope) :
    openIds (s :: scopes) = s.id?.toList ++ openIds scopes := by
  unfold openIds
  cases h : s.id? <;> simp [h]

theorem innermost?_id (w : Walk) : w.innermost?.map (·.1) = (openIds w.scopes).head? := by
  unfold innermost? openIds
  induction w.scopes with
  | nil => rfl
  | cons s scopes ih => cases h : s.function? <;> simp [Scope.id?, h, ih]

theorem ordered_start : Ordered code 0 {} := by
  have hnone : ∀ {id e}, ({} : Forest).at? id ≠ some e := by simp [Forest.at?]
  constructor
  case linked => constructor <;> simp [hnone]
  all_goals simp [hnone, openIds]

/-! ## What follows for functions inside another -/

/-- A function inside another starts after the body was opened. -/
theorem Ordered.after (h : Ordered code i w) {p : Nat} {q : Entity} (hq : w.forest.at? p = some q)
    {id : Nat} {e : Entity} (he : w.forest.at? id = some e) (hparent : e.parent = some p) :
    q.opening < e.start :=
  h.opens hq he (h.linked.earlier he hparent)

/-- A body without closing brace of its own ends with the function around it. -/
theorem Ordered.close_eq (h : Ordered code i w) {p : Nat} {q : Entity}
    (hq : w.forest.at? p = some q) {id : Nat} {e : Entity} (he : w.forest.at? id = some e)
    (hparent : e.parent = some p) (hd : code.partner? e.opening = none) : e.close = q.close := by
  rcases h.borrowed he hd with ⟨hnone, -⟩ | ⟨p', q', hparent', hq', hclose⟩
  · rw [hparent] at hnone
    cases hnone
  · obtain rfl : p = p' := Option.some.inj (hparent.symm.trans hparent')
    obtain rfl : q = q' := Option.some.inj (hq.symm.trans hq')
    exact hclose

/-- Functions inside the same one, or inside none, follow one another. -/
theorem Ordered.last_lt (h : Ordered code i w) {a b : Nat} {x y : Entity}
    (hx : w.forest.at? a = some x) (hy : w.forest.at? b = some y) (hab : a < b)
    (hparent : x.parent = y.parent) : x.last code.size < y.start := by
  rcases h.apart hx hy hab with ⟨d, hd, hlt⟩ | ⟨p, hp, hle⟩
  · simpa [Entity.last, hd] using hlt
  · have := h.linked.earlier hx (hparent.trans hp)
    omega

theorem Ordered.opening_lt (h : Ordered code i w) {a b : Nat} {x y : Entity}
    (hx : w.forest.at? a = some x) (hy : w.forest.at? b = some y) (hab : a < b) :
    x.opening < y.opening :=
  Nat.lt_of_lt_of_le (h.opens hx hy hab) (h.placed hy).1.start_le

/-- Functions listed together follow one another. -/
theorem Ordered.follow (h : Ordered code i w) {ids : List Nat} (hids : ids.Pairwise (· < ·))
    {parent : Option Nat}
    (hparent : ∀ {id}, id ∈ ids ↔ ∃ e, w.forest.at? id = some e ∧ e.parent = parent) :
    ids.Pairwise (w.forest.Follow code.size) := by
  have hown : ∀ {id x}, id ∈ ids → w.forest.at? id = some x → x.parent = parent := by
    intro id x hid hx
    obtain ⟨x', hx', hx''⟩ := hparent.mp hid
    obtain rfl : x' = x := Option.some.inj (hx'.symm.trans hx)
    exact hx''
  refine hids.imp_of_mem fun {a b} ha hb hab x y hx hy => ⟨h.opening_lt hx hy hab, ?_⟩
  exact h.last_lt hx hy hab ((hown ha hx).trans (hown hb hy).symm)

theorem Ordered.siblings (h : Ordered code i w) {p : Nat} {q : Entity}
    (hq : w.forest.at? p = some q) : q.children.Pairwise fun a b => ∀ {x y},
      w.forest.at? a = some x → w.forest.at? b = some y → x.last code.size < y.start :=
  (h.follow (h.linked.childOrder hq) (h.linked.children hq)).imp fun hab _ _ hx hy =>
    (hab hx hy).2

/-! ## Leaving scopes and entering types -/

theorem Ordered.mono (h : Ordered code i w) {j : Nat} (hij : i ≤ j) : Ordered code j w where
  placed hid := ⟨(h.placed hid).1, Nat.lt_of_lt_of_le (h.placed hid).2 hij⟩
  known := h.known
  chain := h.chain
  settled hid := (h.settled hid).imp_right fun ⟨d, hd, hlt⟩ =>
    ⟨d, hd, Nat.lt_of_lt_of_le hlt hij⟩
  linked := h.linked
  borrowed := h.borrowed
  opens := h.opens
  apart := h.apart

/-- The scopes that are left, and those that stay. -/
theorem leave_split (w : Walk) (i : Nat) :
    ∃ gone, w.scopes = gone ++ (w.leave i).scopes ∧
      ∀ s ∈ gone, ∃ d, s.close = some d ∧ d < i := by
  refine ⟨w.scopes.takeWhile fun s => s.close.any (· < i),
    (List.takeWhile_append_dropWhile ..).symm, fun s hs => ?_⟩
  have hany := List.mem_takeWhile_imp hs
  obtain ⟨d, hd, hlt⟩ := (Option.any_eq_true ..).mp hany
  exact ⟨d, hd, by simpa using hlt⟩

/-- The innermost scope that stays is still open. -/
theorem leave_head {s : Scope} (h : (w.leave i).scopes.head? = some s) {d : Nat}
    (hd : s.close = some d) : i ≤ d := by
  have hne : w.scopes.dropWhile (fun s => s.close.any (· < i)) ≠ [] := by
    intro hnil
    rw [show (w.leave i).scopes = [] from hnil] at h
    cases h
  have hhead := List.head_dropWhile_not (fun s : Scope => s.close.any (· < i)) hne
  have hs : (w.scopes.dropWhile fun s => s.close.any (· < i)).head hne = s := by
    rw [← Option.some_inj, ← List.head?_eq_some_head, ← h]
    rfl
  rw [hs, hd] at hhead
  simpa using hhead

theorem Ordered.leave (h : Ordered code i w) : Ordered code i (w.leave i) := by
  obtain ⟨gone, hsplit, hgone⟩ := leave_split w i
  have hsub : (w.leave i).scopes.Sublist w.scopes := by
    rw [hsplit]
    exact List.sublist_append_right ..
  have hids : openIds w.scopes = openIds gone ++ openIds (w.leave i).scopes := by
    rw [hsplit]
    exact List.filterMap_append
  constructor
  case placed => exact h.placed
  case known => exact fun s hs => h.known s (hsub.subset hs)
  case chain =>
    have := h.chain
    rw [hids] at this
    exact this.right_of_append
  case settled =>
    intro id e hid
    cases h.settled hid with
    | inr hd => exact Or.inr hd
    | inl hmem =>
      rw [hids, List.mem_append] at hmem
      refine hmem.symm.imp_right fun hmem => ?_
      -- A scope that is left has a closing brace before the token.
      obtain ⟨s, hs, hsid⟩ := List.mem_filterMap.mp hmem
      obtain ⟨⟨id', close⟩, hf, rfl⟩ := Option.map_eq_some_iff.mp hsid
      obtain ⟨e', he', hclose⟩ := h.known s (by rw [hsplit]; exact List.mem_append_left _ hs) hf
      obtain ⟨d, hd, hlt⟩ := hgone s hs
      obtain rfl : e' = e := Option.some.inj (he'.symm.trans hid)
      exact ⟨d, by rw [hclose, ← Scope.function?_close hf, hd], hlt⟩
  case linked => exact h.linked
  case borrowed => exact h.borrowed
  case opens => exact h.opens
  case apart => exact h.apart

theorem containerAt?_scope {s : Scope} (h : code.containerAt? rules i = some s) :
    code.isWord i = true ∧ s.function? = none := by
  obtain ⟨hword, -, brace, -, rfl⟩ := Code.containerAt?_eq_some h
  exact ⟨Code.isWord_of_isWordIn hword, rfl⟩

theorem enterContainer_forest (w : Walk) (code : Code) (rules : SignatureRules) (i : Nat) :
    (w.enterContainer code rules i).forest = w.forest := by
  unfold enterContainer
  split <;> rfl

theorem Ordered.enterContainer (h : Ordered code i w) :
    Ordered code i (w.enterContainer code rules i) := by
  unfold Walk.enterContainer
  cases hs : code.containerAt? rules i with
  | none => exact h
  | some s =>
    obtain ⟨-, hnone⟩ := containerAt?_scope hs
    have hids : openIds (s :: w.scopes) = openIds w.scopes := by
      simp [openIds_cons, Scope.id?, hnone]
    constructor
    case placed => exact h.placed
    case known =>
      intro t ht id close hf
      cases List.mem_cons.mp ht with
      | inl heq => subst heq; rw [hnone] at hf; cases hf
      | inr hmem => exact h.known t hmem hf
    case chain => rw [hids]; exact h.chain
    case settled => rw [hids]; exact h.settled
    case linked => exact h.linked
    case borrowed => exact h.borrowed
    case opens => exact h.opens
    case apart => exact h.apart

/-! ## Entering functions -/

/-- The innermost function scope, and the scopes above and below it. -/
theorem innermost?_split {p : Nat} {close : Option Nat} (h : w.innermost? = some (p, close)) :
    ∃ above t below, w.scopes = above ++ t :: below ∧ t.function? = some (p, close) ∧
      ∀ s ∈ above, s.function? = none := by
  obtain ⟨above, t, below, hscopes, ht, habove⟩ := List.findSome?_eq_some_iff.mp h
  exact ⟨above, t, below, hscopes, ht, habove⟩

theorem Ordered.innermost (h : Ordered code i w) {p : Nat} {close : Option Nat}
    (hw : w.innermost? = some (p, close)) : ∃ q, w.forest.at? p = some q ∧ q.close = close := by
  obtain ⟨above, t, below, hscopes, ht, -⟩ := innermost?_split hw
  exact h.known t (by simp [hscopes]) ht

/-- The function around a new one. -/
theorem Ordered.parent_entity (h : Ordered code i w) {s : Signature} {brace p : Nat}
    (hparent : (w.entity code rules s brace).parent = some p) :
    ∃ q, w.forest.at? p = some q ∧ w.innermost? = some (p, q.close) := by
  obtain ⟨⟨p', close⟩, hw, rfl⟩ := Option.map_eq_some_iff.mp hparent
  obtain ⟨q, hq, rfl⟩ := h.innermost hw
  exact ⟨q, hq, hw⟩

theorem Ordered.parent_lt (h : Ordered code i w) (rules : SignatureRules) (s : Signature)
    (brace p : Nat)
    (hparent : (w.entity code rules s brace).parent = some p) : p < w.forest.entities.size := by
  obtain ⟨q, hq, -⟩ := h.parent_entity hparent
  exact Forest.lt_size_of_at? hq

/-- Inner function scopes belong to later functions. -/
theorem Ordered.openIds_pairwise (h : Ordered code i w) :
    (openIds w.scopes).Pairwise (· > ·) := by
  refine List.IsChain.pairwise (h.chain.imp ?_)
  rintro a b ⟨e, he, hparent⟩
  exact h.linked.earlier he hparent

/-- The closing brace of a new function: its own, or that of the function around it. -/
theorem entity_close_of_partner {s : Signature} {brace d : Nat}
    (hd : code.partner? brace = some d) : (w.entity code rules s brace).close = some d := by
  simp [entity, hd]

theorem entity_close_of_alone {s : Signature} {brace : Nat} (hd : code.partner? brace = none) :
    (w.entity code rules s brace).close = w.innermost?.bind (·.2) := by
  simp [entity, hd]

/-- A function whose scope is open is the innermost one or an earlier one. -/
theorem Ordered.le_innermost (h : Ordered code i w) {id : Nat} (hid : id ∈ openIds w.scopes) :
    ∃ p q, w.forest.at? p = some q ∧ w.innermost? = some (p, q.close) ∧ id ≤ p := by
  have hpair := h.openIds_pairwise
  have hhead := innermost?_id w
  cases hids : openIds w.scopes with
  | nil => rw [hids] at hid; cases hid
  | cons p rest =>
    rw [hids] at hid hpair hhead
    obtain ⟨⟨p', close⟩, hw, hp'⟩ := Option.map_eq_some_iff.mp hhead
    obtain rfl : p' = p := hp'
    obtain ⟨q, hq, rfl⟩ := h.innermost hw
    refine ⟨p', q, hq, hw, ?_⟩
    cases List.mem_cons.mp hid with
    | inl heq => exact Nat.le_of_eq heq
    | inr hrest => exact Nat.le_of_lt ((List.pairwise_cons.mp hpair).1 id hrest)

section Enter

variable {s : Signature} {brace : Nat}

theorem Ordered.placed_entity (h : Ordered code i w) (hp : code.Paired) (hs : s.Forward code i)
    (ht : s.tail = .body brace) : (w.entity code rules s brace).Placed code := by
  obtain ⟨hlt, hbrace⟩ := hs.body ht
  have hname := hs.le_name
  have hstart : code.signatureStart rules s.anchor ≤ i := by
    have := code.signatureStart_le rules s.anchor
    rwa [hs.anchor] at this ⊢
  constructor
  case brace => exact hbrace
  case start_le =>
    change code.signatureStart rules s.anchor ≤ brace
    omega
  case binding =>
    intro b hb
    obtain ⟨h1, h2⟩ := hs.binding hb ht
    exact ⟨Nat.lt_of_le_of_lt hstart h1, h2⟩
  case own => exact fun hd => entity_close_of_partner hd
  case body =>
    intro c hc
    cases hd : code.partner? brace with
    | some d =>
      rw [entity_close_of_partner hd] at hc
      cases hc
      obtain ⟨hpair, hclose⟩ := hp.closer?_of_opening (b := .curly) hbrace hd
      exact ⟨brace, Nat.le_refl _, hpair, hclose⟩
    | none =>
      rw [entity_close_of_alone hd] at hc
      obtain ⟨⟨p, close⟩, hw, rfl⟩ := Option.bind_eq_some_iff.mp hc
      obtain ⟨q, hq, hclose⟩ := h.innermost hw
      obtain ⟨hplaced, hopen⟩ := h.placed hq
      obtain ⟨o, ho, b⟩ := hplaced.body hclose
      refine ⟨o, ?_, b⟩
      change o ≤ brace
      omega
  all_goals rfl

/-- A function and the one around it after a function is added: the new one in the innermost, or
two old ones. -/
theorem Ordered.add_cases (h : Ordered code i w) {p id : Nat} {q x : Entity}
    (hq : (w.forest.add (w.entity code rules s brace)).at? p = some q)
    (hx : (w.forest.add (w.entity code rules s brace)).at? id = some x)
    (hxp : x.parent = some p) :
    ∃ q', w.forest.at? p = some q' ∧ (∃ yes n, q = q'.adopt yes n) ∧
      ((w.innermost? = some (p, q'.close) ∧ x = w.entity code rules s brace) ∨
        ∃ y, w.forest.at? id = some y ∧ y.parent = some p ∧ ∃ yes n, x = y.adopt yes n) := by
  have hparent := h.parent_lt rules s brace
  have hold : ∀ {y}, w.forest.at? p = some y → q = y.adopt _ _ := fun hy =>
    Option.some.inj (hq.symm.trans (Forest.at?_add_old hy))
  rcases Forest.at?_add_cases hparent hx with ⟨rfl, rfl⟩ | ⟨y, hy, rfl⟩
  · obtain ⟨q', hq', hw⟩ := h.parent_entity hxp
    exact ⟨q', hq', ⟨_, _, hold hq'⟩, Or.inl ⟨hw, rfl⟩⟩
  · rw [Entity.adopt_parent] at hxp
    obtain ⟨q', hq'⟩ := h.linked.exists_parent hy hxp
    exact ⟨q', hq', ⟨_, _, hold hq'⟩, Or.inr ⟨y, hy, hxp, _, _, rfl⟩⟩

/-- Two functions after one is added: the later one is new or both are old. -/
theorem Ordered.add_pair (h : Ordered code i w) {a b : Nat} {x y : Entity}
    (hx : (w.forest.add (w.entity code rules s brace)).at? a = some x)
    (hy : (w.forest.add (w.entity code rules s brace)).at? b = some y) (hab : a < b) :
    ∃ x', w.forest.at? a = some x' ∧ (∃ yes n, x = x'.adopt yes n) ∧
      (y = w.entity code rules s brace ∨
        ∃ y', w.forest.at? b = some y' ∧ ∃ yes n, y = y'.adopt yes n) := by
  have hparent := h.parent_lt rules s brace
  have hlt : a < w.forest.entities.size := by
    rcases Forest.at?_add_cases hparent hy with ⟨rfl, -⟩ | ⟨y', hy', -⟩
    · exact hab
    · exact Nat.lt_trans hab (Forest.lt_size_of_at? hy')
  have hx' : w.forest.at? a = some w.forest.entities[a] := Array.getElem?_eq_getElem hlt
  refine ⟨_, hx', ⟨_, _, Option.some.inj (hx.symm.trans (Forest.at?_add_old hx'))⟩, ?_⟩
  rcases Forest.at?_add_cases hparent hy with ⟨-, hnew⟩ | ⟨y', hy', hold⟩
  · exact Or.inl hnew
  · exact Or.inr ⟨y', hy', _, _, hold⟩

/-- A new function starts after an earlier one ends, or lies inside one that is not before it. -/
theorem Ordered.entity_apart (h : Ordered code i w) (hs : s.Forward code i) {a : Nat} {x : Entity}
    (hx : w.forest.at? a = some x) :
    (∃ d, x.close = some d ∧ d < (w.entity code rules s brace).start) ∨
      ∃ p, (w.entity code rules s brace).parent = some p ∧ a ≤ p := by
  rcases h.settled hx with hopen | ⟨d, hd, hdi⟩
  · obtain ⟨p, q, -, hw, hle⟩ := h.le_innermost hopen
    exact Or.inr ⟨p, by simp [entity, hw], hle⟩
  · obtain ⟨o, -, b⟩ := (h.placed hx).1.body hd
    exact Or.inl ⟨d, hd, Code.lt_signatureStart (Or.inr rfl) b.close (by rw [hs.anchor]; exact hdi)⟩

theorem Ordered.entity_borrowed (h : Ordered code i w) (hd : code.partner? brace = none) :
    ((w.entity code rules s brace).parent = none ∧ (w.entity code rules s brace).close = none) ∨
      ∃ p q, (w.entity code rules s brace).parent = some p ∧ w.forest.at? p = some q ∧
        (w.entity code rules s brace).close = q.close := by
  rw [entity_close_of_alone hd]
  cases hw : w.innermost? with
  | none => exact Or.inl ⟨by simp [entity, hw], rfl⟩
  | some inner =>
    obtain ⟨q, hq, hclose⟩ := h.innermost hw
    exact Or.inr ⟨inner.1, q, by simp [entity, hw], hq, hclose.symm⟩

theorem Ordered.enterFunction (h : Ordered code i w) (hp : code.Paired) (hs : s.Forward code i)
    (ht : s.tail = .body brace) :
    Ordered code (brace + 1) (w.enterFunction code rules s brace) := by
  have hparent := h.parent_lt rules s brace
  have hcases := fun {id x} => @Forest.at?_add_cases _ _ x id hparent
  have hnew := Forest.at?_add_new hparent
  have hlt : i < brace := Nat.lt_of_le_of_lt hs.le_name (hs.body ht).1
  constructor
  case placed =>
    intro id x hx
    rcases hcases hx with ⟨-, rfl⟩ | ⟨y, hy, rfl⟩
    · exact ⟨h.placed_entity hp hs ht, Nat.lt_succ_self brace⟩
    · obtain ⟨h1, h2⟩ := h.placed hy
      exact ⟨h1.adopt .., by rw [Entity.adopt_opening]; omega⟩
  case known =>
    intro t ht id close hf
    cases List.mem_cons.mp ht with
    | inl heq =>
      subst heq
      cases hf
      exact ⟨_, hnew, rfl⟩
    | inr hmem =>
      obtain ⟨y, hy, hclose⟩ := h.known t hmem hf
      exact ⟨_, Forest.at?_add_old hy, by rw [Entity.adopt_close, hclose]⟩
  case chain =>
    refine List.isChain_cons.mpr ⟨fun p hhead => ⟨_, hnew, ?_⟩, h.chain.imp ?_⟩
    · change w.innermost?.map (·.1) = some p
      rw [innermost?_id]
      exact hhead
    · rintro a b ⟨x, hx, hxb⟩
      exact ⟨_, Forest.at?_add_old hx, by rw [Entity.adopt_parent, hxb]⟩
  case settled =>
    intro id x hx
    rcases hcases hx with ⟨rfl, rfl⟩ | ⟨y, hy, rfl⟩
    · exact Or.inl (List.mem_cons_self ..)
    · rw [Entity.adopt_close]
      refine (h.settled hy).imp (List.mem_cons_of_mem _) ?_
      rintro ⟨d, hd, hdi⟩
      exact ⟨d, hd, by omega⟩
  case linked => exact h.linked.add hparent rfl
  case borrowed =>
    have hold : ∀ {e : Entity}, (e.parent = none ∧ e.close = none) ∨
          (∃ p q, e.parent = some p ∧ w.forest.at? p = some q ∧ e.close = q.close) →
        (e.parent = none ∧ e.close = none) ∨ ∃ p q, e.parent = some p ∧
          (w.forest.add (w.entity code rules s brace)).at? p = some q ∧ e.close = q.close := by
      rintro e (hroot | ⟨p, q, hep, hq, hclose⟩)
      · exact Or.inl hroot
      · exact Or.inr ⟨p, _, hep, Forest.at?_add_old hq, by rw [Entity.adopt_close, hclose]⟩
    intro id x hx hd
    rcases hcases hx with ⟨-, rfl⟩ | ⟨y, hy, rfl⟩
    · exact hold (h.entity_borrowed hd)
    · rw [Entity.adopt_opening] at hd
      rw [Entity.adopt_parent, Entity.adopt_close]
      exact hold (h.borrowed hy hd)
  case opens =>
    intro a b x y hx hy hab
    obtain ⟨x, hx', ⟨_, _, rfl⟩, rfl | ⟨y, hy', _, _, rfl⟩⟩ := h.add_pair hx hy hab
    · obtain ⟨hplaced, hopen⟩ := h.placed hx'
      rw [Entity.adopt_opening]
      exact Code.lt_signatureStart (Or.inl rfl) hplaced.brace (by rw [hs.anchor]; exact hopen)
    · rw [Entity.adopt_opening, Entity.adopt_start]
      exact h.opens hx' hy' hab
  case apart =>
    intro a b x y hx hy hab
    obtain ⟨x, hx', ⟨_, _, rfl⟩, rfl | ⟨y, hy', _, _, rfl⟩⟩ := h.add_pair hx hy hab
    · rw [Entity.adopt_close]
      exact h.entity_apart hs hx'
    · rw [Entity.adopt_close, Entity.adopt_start, Entity.adopt_parent]
      exact h.apart hx' hy' hab

end Enter

/-! ## Steps -/

theorem Ordered.arrive (h : Ordered code i w) : Ordered code i (w.arrive code rules i) :=
  h.leave.enterContainer

theorem Ordered.declare (h : Ordered code i w) (s : Signature) :
    Ordered code i (w.declare code s) :=
  ⟨h.placed, h.known, h.chain, h.settled,
    ⟨h.linked.earlier, h.linked.roots, h.linked.rootOrder, h.linked.children, h.linked.childOrder⟩,
    h.borrowed, h.opens, h.apart⟩

/-- A step keeps the functions in order. -/
theorem Ordered.step (hp : code.Paired) {j : Nat} {w' : Walk} (h : Ordered code i w)
    (hstep : Next code rules (i, w) (j, w')) : Ordered code j w' := by
  obtain ⟨-, next, hstep, hj⟩ := hstep
  simp only at hstep hj
  rcases step_cases hstep with ⟨rfl, rfl⟩ | ⟨s, brace, hs, htail, rfl, rfl⟩ | ⟨s, -, -, rfl⟩
  · exact h.arrive.mono (by omega)
  · exact (h.arrive.enterFunction hp (Code.signatureAt_forward hp hs) htail).mono (by omega)
  · exact (h.arrive.declare s).mono (by omega)

/-- The walk keeps the functions in order. -/
theorem ordered_run (hp : code.Paired) {j : Nat} {w' : Walk}
    (hrun : Run code rules (0, {}) (j, w')) : Ordered code j w' := by
  generalize hb : (j, w') = b at hrun
  induction hrun generalizing j w' with
  | refl => cases hb; exact ordered_start
  | @tail a b hrun hstep ih =>
    subst hb
    exact (ih rfl).step hp hstep

end Walk

end Cyclomatic
