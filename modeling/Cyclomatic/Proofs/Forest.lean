import Cyclomatic.Function.Forest
import Mathlib.Data.List.Basic

/-!
# Links between functions

A forest grows by one function at a time.  The new function is the last one, and the function
around it takes it as its last child (`Forest.at?_add`).  So the links between the functions agree
in every forest that was built this way (`Forest.Linked`).
-/

namespace Cyclomatic

/-! ## Adding a function -/

/-- A function that takes another as its last child, if it is the one around it. -/
def Entity.adopt (e : Entity) (yes : Bool) (id : Nat) : Entity :=
  if yes then { e with children := e.children ++ [id] } else e

namespace Entity

variable (e : Entity) (yes : Bool) (id : Nat)

@[simp] theorem adopt_parent : (e.adopt yes id).parent = e.parent := by cases yes <;> rfl

@[simp] theorem adopt_start : (e.adopt yes id).start = e.start := by cases yes <;> rfl

@[simp] theorem adopt_opening : (e.adopt yes id).opening = e.opening := by cases yes <;> rfl

@[simp] theorem adopt_close : (e.adopt yes id).close = e.close := by cases yes <;> rfl

/-- A function that adopts another keeps its last token. -/
@[simp] theorem last_adopt (size : Nat) : (e.adopt yes id).last size = e.last size := by
  cases yes <;> rfl

/-- A function that adopts another has it as its last child. -/
theorem adopt_children :
    (e.adopt yes id).children = if yes then e.children ++ [id] else e.children := by
  cases yes <;> rfl

end Entity

namespace Forest

/-- The function at a position. -/
def at? (forest : Forest) (id : Nat) : Option Entity := forest.entities[id]?

theorem lt_size_of_at? {forest : Forest} {id : Nat} {e : Entity} (h : forest.at? id = some e) :
    id < forest.entities.size :=
  (Array.getElem?_eq_some_iff.mp h).1

/-- The functions after one is added: the new one, and the old ones, of which its parent lists
it as a child. -/
theorem at?_add {forest : Forest} {e : Entity} (id : Nat) :
    (forest.add e).at? id =
      if id = forest.entities.size then some (e.adopt (e.parent == some id) id)
      else (forest.at? id).map (·.adopt (e.parent == some id) forest.entities.size) := by
  have hpush : (forest.entities.push e)[id]? =
      if id = forest.entities.size then some e else forest.entities[id]? :=
    Array.getElem?_push
  unfold add at?
  dsimp only
  split
  · rename_i p hp
    rw [Array.getElem?_modify, hpush, hp]
    by_cases hid : id = forest.entities.size
    · subst hid
      by_cases hpid : p = forest.entities.size <;> simp [hpid, Entity.adopt]
    · by_cases hpid : p = id <;> simp [hid, hpid, Entity.adopt]
  · rename_i hp
    rw [hpush, hp]
    split <;> simp [Entity.adopt]

/-- A function after one is added is the new one or an old one. -/
theorem at?_add_cases {forest : Forest} {e x : Entity} {id : Nat}
    (hparent : ∀ p, e.parent = some p → p < forest.entities.size)
    (h : (forest.add e).at? id = some x) :
    (id = forest.entities.size ∧ x = e) ∨
      ∃ y, forest.at? id = some y ∧ x = y.adopt (e.parent == some id) forest.entities.size := by
  rw [at?_add] at h
  split at h
  · rename_i hid
    have hne : (e.parent == some id) = false := by
      rw [beq_eq_false_iff_ne]
      intro hp
      exact absurd (hparent id hp) (by omega)
    rw [hne] at h
    exact Or.inl ⟨hid, (Option.some.inj h).symm⟩
  · obtain ⟨y, hy, hx⟩ := Option.map_eq_some_iff.mp h
    exact Or.inr ⟨y, hy, hx.symm⟩

/-- An old function may have adopted the new one. -/
theorem at?_add_old {forest : Forest} {e y : Entity} {id : Nat} (h : forest.at? id = some y) :
    (forest.add e).at? id = some (y.adopt (e.parent == some id) forest.entities.size) := by
  rw [at?_add, if_neg (Nat.ne_of_lt (lt_size_of_at? h)), h]
  rfl

/-- The new function has the next number. -/
theorem at?_add_new {forest : Forest} {e : Entity}
    (hparent : ∀ p, e.parent = some p → p < forest.entities.size) :
    (forest.add e).at? forest.entities.size = some e := by
  have hne : (e.parent == some forest.entities.size) = false := by
    rw [beq_eq_false_iff_ne]
    intro hp
    exact absurd (hparent _ hp) (Nat.lt_irrefl _)
  rw [at?_add, if_pos rfl, hne]
  rfl

theorem size_add (forest : Forest) (e : Entity) :
    (forest.add e).entities.size = forest.entities.size + 1 := by
  unfold add
  dsimp only
  split <;> simp

theorem declarations_add (forest : Forest) (e : Entity) :
    (forest.add e).declarations = forest.declarations := by
  unfold add
  dsimp only
  split <;> rfl

/-- The new function is a root unless it has a parent. -/
theorem roots_add (forest : Forest) (e : Entity) :
    (forest.add e).roots =
      if e.parent = none then forest.roots ++ [forest.entities.size] else forest.roots := by
  unfold add
  dsimp only
  split
  · rename_i p hp
    simp [hp]
  · rename_i hp
    simp [hp]

theorem mem_entities {forest : Forest} {e : Entity} :
    e ∈ forest.entities ↔ ∃ id, forest.at? id = some e :=
  Array.mem_iff_getElem?

end Forest

/-- The links between functions agree. -/
structure Forest.Linked (forest : Forest) : Prop where
  /-- A function comes after the one around it. -/
  earlier : ∀ {id e p}, forest.at? id = some e → e.parent = some p → p < id
  /-- The roots are the functions without one around. -/
  roots : ∀ {id}, id ∈ forest.roots ↔ ∃ e, forest.at? id = some e ∧ e.parent = none
  /-- They are listed in order. -/
  rootOrder : forest.roots.Pairwise (· < ·)
  /-- A function lists those that it is around. -/
  children : ∀ {p q}, forest.at? p = some q →
    ∀ {id}, id ∈ q.children ↔ ∃ e, forest.at? id = some e ∧ e.parent = some p
  /-- It lists them in order. -/
  childOrder : ∀ {p q}, forest.at? p = some q → q.children.Pairwise (· < ·)

/-- The function around another is in the forest. -/
theorem Forest.Linked.exists_parent {forest : Forest} {id p : Nat} {e : Entity} (h : forest.Linked)
    (he : forest.at? id = some e) (hp : e.parent = some p) : ∃ q, forest.at? p = some q :=
  ⟨_, Array.getElem?_eq_getElem (Nat.lt_trans (h.earlier he hp) (lt_size_of_at? he))⟩

/-- The functions with one parent, after a function is added. -/
theorem Forest.exists_at?_add_iff {forest : Forest} {e : Entity}
    (hparent : ∀ p, e.parent = some p → p < forest.entities.size) {id : Nat} {o : Option Nat} :
    (∃ x, (forest.add e).at? id = some x ∧ x.parent = o) ↔
      (∃ y, forest.at? id = some y ∧ y.parent = o) ∨
        (id = forest.entities.size ∧ e.parent = o) := by
  constructor
  · rintro ⟨x, hx, rfl⟩
    rcases Forest.at?_add_cases hparent hx with ⟨rfl, rfl⟩ | ⟨y, hy, rfl⟩
    · exact Or.inr ⟨rfl, rfl⟩
    · exact Or.inl ⟨y, hy, by simp⟩
  · rintro (⟨y, hy, rfl⟩ | ⟨rfl, rfl⟩)
    · exact ⟨_, Forest.at?_add_old hy, by simp⟩
    · exact ⟨e, Forest.at?_add_new hparent, rfl⟩

/-- A list of functions stays in order if a new one is put at its end. -/
theorem Forest.pairwise_concat {forest : Forest} {ids : List Nat} (h : ids.Pairwise (· < ·))
    (hids : ∀ id ∈ ids, ∃ e, forest.at? id = some e) :
    (ids ++ [forest.entities.size]).Pairwise (· < ·) := by
  refine List.pairwise_append.mpr ⟨h, List.pairwise_singleton .., fun a ha b hb => ?_⟩
  obtain rfl := List.mem_singleton.mp hb
  obtain ⟨e, he⟩ := hids a ha
  exact Forest.lt_size_of_at? he

/-- A new function without children keeps the links. -/
theorem Forest.Linked.add {forest : Forest} {e : Entity} (h : forest.Linked)
    (hparent : ∀ p, e.parent = some p → p < forest.entities.size) (hnone : e.children = []) :
    (forest.add e).Linked := by
  have hcases := fun {id x} => @Forest.at?_add_cases _ _ x id hparent
  constructor
  case earlier =>
    intro id x p hx hxp
    rcases hcases hx with ⟨rfl, rfl⟩ | ⟨y, hy, rfl⟩
    · exact hparent p hxp
    · exact h.earlier hy (by simpa using hxp)
  case roots =>
    intro id
    rw [Forest.roots_add, Forest.exists_at?_add_iff hparent, ← h.roots]
    by_cases hroot : e.parent = none <;> simp [hroot]
  case rootOrder =>
    rw [Forest.roots_add]
    split
    · exact Forest.pairwise_concat h.rootOrder fun id hid => (h.roots.mp hid).imp fun _ => And.left
    · exact h.rootOrder
  case childOrder =>
    intro p q hq
    rcases hcases hq with ⟨rfl, rfl⟩ | ⟨y, hy, rfl⟩
    · rw [hnone]
      exact .nil
    · rw [Entity.adopt_children]
      split
      · exact Forest.pairwise_concat (h.childOrder hy) fun id hid =>
          ((h.children hy).mp hid).imp fun _ => And.left
      · exact h.childOrder hy
  case children =>
    intro p q hq id
    rw [Forest.exists_at?_add_iff hparent]
    rcases hcases hq with ⟨rfl, rfl⟩ | ⟨y, hy, rfl⟩
    · -- Nothing refers to the new function yet.
      rw [hnone]
      refine ⟨fun hid => absurd hid List.not_mem_nil, ?_⟩
      rintro (⟨y, hy, hyp⟩ | ⟨-, hself⟩)
      · have := h.earlier hy hyp
        have := Forest.lt_size_of_at? hy
        omega
      · exact absurd (hparent _ hself) (Nat.lt_irrefl _)
    · rw [← h.children hy, Entity.adopt_children]
      by_cases hp : e.parent = some p <;> simp [hp]

/-! ## Functions at any depth -/

/-- A function is another one or lies inside it, at any depth. -/
inductive Forest.Descends (forest : Forest) (f : Nat) : Nat → Prop where
  | refl : Descends forest f f
  | child {id p : Nat} {e : Entity} : forest.at? id = some e → e.parent = some p →
      Descends forest f p → Descends forest f id

namespace Forest

/-- Old descendants stay descendants where parents stay. -/
theorem Descends.mono {forest forest' : Forest} {f id : Nat} (h : forest.Descends f id)
    (hold : ∀ {id e}, forest.at? id = some e →
      ∃ e', forest'.at? id = some e' ∧ e'.parent = e.parent) : forest'.Descends f id := by
  induction h with
  | refl => exact .refl
  | child hid hp _ ih =>
    obtain ⟨e', he', hparent⟩ := hold hid
    exact .child he' (hparent.trans hp) ih

theorem Descends.add {forest : Forest} {f id : Nat} (h : forest.Descends f id) (e : Entity) :
    (forest.add e).Descends f id :=
  h.mono fun hid => ⟨_, at?_add_old hid, Entity.adopt_parent ..⟩

/-- If every function ends with the one around it, it ends with all of them. -/
theorem Descends.last_le {forest : Forest} {size f id : Nat} {a b : Entity}
    (hwithin : ∀ {p q}, forest.at? p = some q → ∀ {id e}, forest.at? id = some e →
      e.parent = some p → e.last size ≤ q.last size)
    (h : forest.Descends f id) (hf : forest.at? f = some a) (hid : forest.at? id = some b) :
    b.last size ≤ a.last size := by
  induction h generalizing b with
  | refl =>
    obtain rfl : a = b := Option.some.inj (hf.symm.trans hid)
    exact Nat.le_refl _
  | @child id p e he hp hdesc ih =>
    obtain rfl : e = b := Option.some.inj (he.symm.trans hid)
    have hex : ∃ q, forest.at? p = some q := by
      cases hdesc with
      | refl => exact ⟨a, hf⟩
      | child hq _ _ => exact ⟨_, hq⟩
    obtain ⟨q, hq⟩ := hex
    exact Nat.le_trans (hwithin hq he hp) (ih hq)

/-- A descendant of a descendant is one. -/
theorem Descends.trans {forest : Forest} {f g id : Nat} (h1 : forest.Descends f g)
    (h2 : forest.Descends g id) : forest.Descends f id := by
  induction h2 with
  | refl => exact h1
  | child he hp _ ih => exact .child he hp ih

/-- A descendant has no smaller number. -/
theorem Descends.le {forest : Forest} {f id : Nat} (hlinked : forest.Linked)
    (h : forest.Descends f id) : f ≤ id := by
  induction h with
  | refl => exact Nat.le_refl f
  | child he hp _ ih => exact Nat.le_trans ih (Nat.le_of_lt (hlinked.earlier he hp))

/-- Nothing lies inside two functions that have one parent or none. -/
theorem Descends.ne {forest : Forest} {a b id id' : Nat} {x y : Entity} (hlinked : forest.Linked)
    (hx : forest.at? a = some x) (hy : forest.at? b = some y) (hparent : x.parent = y.parent)
    (hab : a < b) (ha : forest.Descends a id) (hb : forest.Descends b id') : id ≠ id' := by
  rintro rfl
  induction hb with
  | refl =>
    cases ha with
    | refl => exact absurd hab (Nat.lt_irrefl _)
    | child he hp hdesc =>
      obtain rfl := Option.some.inj (he.symm.trans hy)
      have h1 := hdesc.le hlinked
      have h2 := hlinked.earlier hx (hparent.trans hp)
      omega
  | @child id p e he hp hdesc ih =>
    cases ha with
    | refl =>
      have h1 := hdesc.le hlinked
      have h2 := hlinked.earlier he hp
      omega
    | child he' hp' hdesc' =>
      obtain rfl := Option.some.inj (he.symm.trans he')
      obtain rfl := Option.some.inj (hp.symm.trans hp')
      exact ih hdesc'

end Forest

end Cyclomatic
