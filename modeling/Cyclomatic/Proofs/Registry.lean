import Cyclomatic.Proofs.Builtin
import Cyclomatic.Proofs.Casing
import Cyclomatic.Proofs.Sorting
import Mathlib.Data.List.Induction

/-!
# Registered languages

What `Registry.insert` does to a lookup is said once for tables (`table?_insert`) and once for
extensions (`owner?_insert`).  The second needs that an owner still lists its extension
(`Registry.Sound`), which holds of every registry that calls of `Registry.register` lead to.

A table just stored is found under its name and by its extensions, unless its name is a short name
of another language (`register_lookup`): names are stored without regard to short names and
looked up with them.

An extension that some table lists belongs to the table that listed it last.  If that table was
replaced by one without it, the extension has no owner, even if other tables list it
(`listed_extension_resolves`).

The other way round nothing is stale: an owner is a stored table that lists the extension, and names
are stored once each (`reached_consistent`).
-/

namespace Cyclomatic.Registry

/-! ## Rows of owners -/

/-- Dropping the entries under one key changes nothing under another. -/
theorem find?_filter_ne {α : Type} (key : α → String) {x k : String} (h : k ≠ x) (rows : List α) :
    (rows.filter (key · != x)).find? (key · == k) = rows.find? (key · == k) := by
  rw [List.find?_filter]
  congr 1
  funext row
  by_cases hrow : key row = k
  · simp [hrow, h]
  · simp [hrow]

/-- The owner of an extension among some rows. -/
def ownerIn (rows : List (String × String)) (e : String) : Option String :=
  (rows.find? (·.1 == e)).map (·.2)

theorem ownerIn_cons (row : String × String) (rows : List (String × String)) (e : String) :
    ownerIn (row :: rows) e = if row.1 = e then some row.2 else ownerIn rows e := by
  by_cases h : row.1 = e <;> simp [ownerIn, h]

theorem ownerIn_eq_none {rows : List (String × String)} {e : String} (h : e ∉ rows.map (·.1)) :
    ownerIn rows e = none := by
  rw [ownerIn, Option.map_eq_none_iff, List.find?_eq_none]
  intro row hrow heq
  exact h (List.mem_map.mpr ⟨row, hrow, beq_iff_eq.mp heq⟩)

theorem ownerIn_claim (rows : List (String × String)) (id x e : String) :
    ownerIn (claim rows id x) e = if e = x then some id else ownerIn rows e := by
  rw [claim, ownerIn_cons]
  by_cases h : x = e
  · rw [if_pos h, if_pos h.symm]
  · rw [if_neg h, if_neg (Ne.symm h), ownerIn, find?_filter_ne Prod.fst (Ne.symm h), ownerIn]

theorem ownerIn_claims (rows : List (String × String)) (id : String) (extensions : List String)
    (e : String) :
    ownerIn (extensions.foldl (fun rows x => claim rows id x) rows) e =
      if e ∈ extensions then some id else ownerIn rows e := by
  induction extensions generalizing rows with
  | nil => simp
  | cons x xs ih =>
    rw [List.foldl_cons, ih, ownerIn_claim]
    by_cases hxs : e ∈ xs
    · simp [hxs]
    · by_cases hx : e = x <;> simp [hxs, hx]

theorem ownerIn_disown {rows : List (String × String)} (h : (rows.map (·.1)).Nodup)
    (id : String) (extensions : List String) (e : String) :
    ownerIn (disown rows id extensions) e =
      if ownerIn rows e = some id ∧ e ∈ extensions then none else ownerIn rows e := by
  induction rows with
  | nil => simp [disown, ownerIn]
  | cons row rows ih =>
    obtain ⟨hrow, hrows⟩ := List.nodup_cons.mp h
    have ih := ih hrows
    rw [disown] at ih ⊢
    rw [List.filter_cons, ownerIn_cons]
    by_cases he : row.1 = e
    · subst he
      have hrest : ownerIn rows row.1 = none := ownerIn_eq_none hrow
      rw [hrest] at ih
      have hdrop : (!(row.2 == id && extensions.contains row.1)) = true ↔
          ¬(row.2 = id ∧ row.1 ∈ extensions) := by simp [imp_iff_not_or]
      by_cases hgone : row.2 = id ∧ row.1 ∈ extensions
      · rw [if_neg (by simpa using hgone), ih]
        simp [hgone]
      · rw [if_pos (hdrop.mpr hgone), ownerIn_cons]
        simp [hgone]
    · rw [if_neg he, ← ih]
      split
      · rw [ownerIn_cons, if_neg he]
      · rfl

theorem nodup_claims {rows : List (String × String)} (h : (rows.map (·.1)).Nodup) (id : String)
    (extensions : List String) :
    ((extensions.foldl (fun rows x => claim rows id x) rows).map (·.1)).Nodup := by
  induction extensions generalizing rows with
  | nil => exact h
  | cons x xs ih =>
    refine ih (List.nodup_cons.mpr ⟨?_, h.sublist (List.filter_sublist.map _)⟩)
    simp

/-! ## Storing one table -/

variable {r r' : Registry} {l t : Language} {e : String}

theorem id_of_table? {id : String} (h : r.table? id = some l) : l.id = id := by
  simpa using List.find?_some h

theorem table?_insert (r : Registry) (l : Language) (id : String) :
    (r.insert l).table? id = if id = l.id then some l else r.table? id := by
  simp only [insert, table?, List.find?_cons]
  by_cases h : l.id = id
  · simp [h]
  · rw [if_neg (Ne.symm h), beq_false_of_ne h, find?_filter_ne Language.id (Ne.symm h)]

/-- Extensions have one owner each, and an owner lists its extension. -/
structure Sound (r : Registry) : Prop where
  /-- No extension has two rows. -/
  nodup : (r.owners.map (·.1)).Nodup
  /-- The table of the owner lists the extension. -/
  listed : ∀ {e id : String}, r.owner? e = some id → ∃ l, r.table? id = some l ∧ e ∈ l.extensions

theorem sound_empty : Sound empty where
  nodup := List.nodup_nil
  listed h := nomatch h

/-- The table just stored owns all its extensions. -/
theorem owner?_insert_of_mem (r : Registry) (h : e ∈ l.extensions) :
    (r.insert l).owner? e = some l.id := by
  change ownerIn (l.extensions.foldl (fun rows x => claim rows l.id x) _) e = _
  rw [ownerIn_claims, if_pos h]

/-- A table takes the extensions it lists and gives up the others that its name owned. -/
theorem owner?_insert (hr : r.Sound) (l : Language) (e : String) :
    (r.insert l).owner? e =
      if e ∈ l.extensions then some l.id
      else if r.owner? e = some l.id then none else r.owner? e := by
  change ownerIn (l.extensions.foldl (fun rows x => claim rows l.id x) _) e = _
  rw [ownerIn_claims]
  congr 1
  cases htable : r.table? l.id with
  | some previous =>
    simp only
    rw [ownerIn_disown hr.nodup]
    change (if r.owner? e = some l.id ∧ _ then none else r.owner? e) = _
    congr 1
    rw [eq_iff_iff, and_iff_left_iff_imp]
    intro howner
    obtain ⟨l', hl', hmem⟩ := hr.listed howner
    rw [htable] at hl'
    cases hl'
    exact hmem
  | none =>
    simp only
    split
    · rename_i howner
      obtain ⟨l', hl', -⟩ := hr.listed howner
      rw [htable] at hl'
      cases hl'
    · rfl

theorem sound_insert (hr : r.Sound) (l : Language) : (r.insert l).Sound where
  nodup := by
    refine nodup_claims ?_ l.id l.extensions
    split
    · exact hr.nodup.sublist (List.filter_sublist.map _)
    · exact hr.nodup
  listed {e id} h := by
    rw [owner?_insert hr] at h
    split at h
    · cases h
      exact ⟨l, by rw [table?_insert, if_pos rfl], ‹_›⟩
    split at h
    · cases h
    · rename_i hne
      have hid : id ≠ l.id := by
        rintro rfl
        exact hne h
      rw [table?_insert, if_neg hid]
      exact hr.listed h

/-- A table that is accepted is stored in canonical form. -/
theorem register_eq_ok (h : r.register l = .ok r') : r' = r.insert l.canonical := by
  rw [register, Language.validate] at h
  cases hfault : l.fault? with
  | some fault =>
    rw [hfault] at h
    exact nomatch h
  | none =>
    rw [hfault] at h
    exact (Except.ok.inj h).symm

/-! ## Looking up the table just stored -/

theorem canonicalId_of_not_alias {name : String}
    (h : Text.lower (Text.trim name) ∉ aliases.map Prod.fst) :
    canonicalId name = Text.lower (Text.trim name) := by
  have hnone : aliases.find? (·.1 == Text.lower (Text.trim name)) = none := by
    rw [List.find?_eq_none]
    intro row hrow heq
    exact h (List.mem_map.mpr ⟨row, hrow, beq_iff_eq.mp heq⟩)
  rw [canonicalId, hnone]

theorem canonicalId_of_alias {name full : String}
    (h : (Text.lower (Text.trim name), full) ∈ aliases) : canonicalId name = full := by
  rw [canonicalId]
  generalize Text.lower (Text.trim name) = id at h ⊢
  have hall : ∀ row ∈ aliases, aliases.find? (·.1 == row.1) = some row := by decide +kernel
  rw [hall _ h]

/-- No full name is a short name. -/
theorem ne_of_mem_aliases {short full : String} (h : (short, full) ∈ aliases) : full ≠ short := by
  have hall : ∀ row ∈ aliases, row.2 ≠ row.1 := by decide +kernel
  exact hall _ h

/-- A table just stored owns its extensions.  It is found under its canonical name and under all
names that differ from the given one in ASCII case and surrounding blanks, unless the name is a
short name: then the lookup finds what was there under the full name, and never the table. -/
theorem register_lookup (h : r.register l = .ok r') :
    (∀ e ∈ l.extensions ++ l.canonical.extensions, r'.ownerOf? e = some l.canonical.id) ∧
      ∀ name, name = l.canonical.id ∨ Text.SameName name l.id →
        (l.canonical.id ∉ aliases.map Prod.fst →
          r'.supports name = true ∧ r'.lookup? name = some l.canonical) ∧
        ∀ full, (l.canonical.id, full) ∈ aliases →
          r'.lookup? name = r.table? full ∧ r'.lookup? name ≠ some l.canonical := by
  rw [register_eq_ok h]
  refine ⟨fun e he => ?_, fun name hname => ?_⟩
  · apply owner?_insert_of_mem
    rw [List.mem_append] at he
    rcases he with he | he
    · exact List.mem_map.mpr ⟨e, he, rfl⟩
    · obtain ⟨x, hx, rfl⟩ := List.mem_map.mp he
      exact List.mem_map.mpr ⟨x, hx, (canonicalExtension_canonicalExtension x).symm⟩
  · have hid : Text.lower (Text.trim name) = l.canonical.id := by
      rcases hname with rfl | hname
      · exact Text.lower_trim_lower_trim l.id
      · exact Text.lower_trim_of_sameName hname
    refine ⟨fun hshort => ?_, fun full hfull => ?_⟩
    · have hlookup : (r.insert l.canonical).lookup? name = some l.canonical := by
        rw [lookup?, canonicalId_of_not_alias (by rwa [hid]), hid, table?_insert, if_pos rfl]
      exact ⟨by rw [supports, hlookup]; rfl, hlookup⟩
    · have hne := ne_of_mem_aliases hfull
      have hlookup : (r.insert l.canonical).lookup? name = r.table? full := by
        rw [lookup?, canonicalId_of_alias (by rwa [hid]), table?_insert, if_neg hne]
      refine ⟨hlookup, fun hself => ?_⟩
      rw [hlookup] at hself
      exact hne (id_of_table? hself).symm

/-- A table with nothing but a name and extensions. -/
def bareTable (id : String) (extensions : List String) : Language :=
  { id, extensions, comments := {}, strings := {} }

theorem register_bareTable (r : Registry) {id : String} (h : Text.isBlankText id = false)
    (extensions : List String) :
    r.register (bareTable id extensions) = .ok (r.insert (bareTable id extensions).canonical) := by
  have hfault : (bareTable id extensions).fault? = none := by
    simp [bareTable, Language.fault?, h]
  rw [register, Language.validate, hfault]

/-- A language with a name of its own is found in any case, by name and by extension. -/
theorem register_lookup_zig :
    ∃ r', builtin.register (bareTable " Zig" [".ZIG"]) = .ok r' ∧
      r'.lookup? "zIG " = some (bareTable " Zig" [".ZIG"]).canonical ∧
      r'.ownerOf? ".ZIG" = some "zig" := by
  have hzig : Text.isBlankText " Zig" = false := by decide
  have h := register_bareTable builtin hzig [".ZIG"]
  obtain ⟨hextensions, hnames⟩ := register_lookup h
  refine ⟨_, h, ?_, hextensions ".ZIG" (by decide +kernel)⟩
  exact ((hnames "zIG " (.inr (by decide +kernel))).1 (by decide +kernel)).2

/-- A language registered as `ts` is not known afterwards, or is taken for TypeScript, while its
extension leads to the name `ts`. -/
theorem register_shortName :
    (empty.register (bareTable "ts" ["tsq"])).map (fun r => (r.supports "ts", r.ownerOf? "tsq")) =
        .ok (false, some "ts") ∧
      (builtin.register (bareTable "ts" ["tsq"])).map
          (fun r => ((r.lookup? "ts").map (·.id), r.ownerOf? "tsq")) =
        .ok (some "typescript", some "ts") := by
  decide +kernel

/-! ## Registering step after step -/

/-- The tables of the built-in registry in the order in which they are stored. -/
def builtinTables : List Language :=
  [Language.Go.table, Language.Java.table, Language.JavaScript.table, Language.Kotlin.table,
    Language.JavaScript.typedTable].map Language.canonical

theorem builtin_eq : builtin = builtinTables.foldl insert empty := by
  rw [builtinTables, List.foldl_map, builtin]

/-- The registries that calls of `register` lead to, with the tables stored so far, oldest
first. -/
inductive Reached : List Language → Registry → Prop where
  | empty : Reached [] .empty
  | builtin : Reached builtinTables .builtin
  | stored {history : List Language} {r r' : Registry} {l : Language} :
      Reached history r → r.register l = .ok r' → Reached (history ++ [l.canonical]) r'
  | refused {history : List Language} {r : Registry} {l : Language} {refusal : Refusal} :
      Reached history r → r.register l = .error refusal → Reached history r

variable {history : List Language}

/-- A registry holds the tables of its history, stored one after another. -/
theorem Reached.eq_foldl (h : Reached history r) : r = history.foldl insert Registry.empty := by
  induction h with
  | empty => rfl
  | builtin => exact builtin_eq
  | stored _ hok ih => rw [List.foldl_append, ← ih, register_eq_ok hok]; rfl
  | refused _ _ ih => exact ih

theorem sound_foldl (history : List Language) (hr : r.Sound) : (history.foldl insert r).Sound := by
  induction history generalizing r with
  | nil => exact hr
  | cons l history ih => exact ih (sound_insert hr l)

theorem Reached.sound (h : Reached history r) : r.Sound :=
  h.eq_foldl ▸ sound_foldl history sound_empty

theorem mem_tables_foldl (h : t ∈ (history.foldl insert r).tables) :
    t ∈ r.tables ∨ t ∈ history := by
  induction history generalizing r with
  | nil => exact .inl h
  | cons l history ih =>
    rcases ih h with h | h
    · rcases List.mem_cons.mp h with rfl | h
      · exact .inr (List.mem_cons_self ..)
      · exact .inl (List.mem_of_mem_filter h)
    · exact .inr (List.mem_cons_of_mem _ h)

/-- The last table of a history that lists an extension, with what was stored after it. -/
structure LastLister (history : List Language) (e : String) (t : Language)
    (later : List Language) : Prop where
  /-- It stands in the history. -/
  split : ∃ earlier, history = earlier ++ t :: later
  /-- It lists the extension. -/
  lists : e ∈ t.extensions
  /-- Nothing after it does. -/
  last : ∀ u ∈ later, e ∉ u.extensions

theorem exists_lastLister (h : ∃ t ∈ history, e ∈ t.extensions) :
    ∃ t later, LastLister history e t later := by
  induction history with
  | nil =>
    obtain ⟨_, hmem, -⟩ := h
    cases hmem
  | cons l history ih =>
    by_cases hlater : ∃ t ∈ history, e ∈ t.extensions
    · obtain ⟨t, later, ⟨earlier, rfl⟩, hlists, hlast⟩ := ih hlater
      exact ⟨t, later, ⟨l :: earlier, rfl⟩, hlists, hlast⟩
    · obtain ⟨t, hmem, hlists⟩ := h
      have hnot : ∀ u ∈ history, e ∉ u.extensions := fun u hu he => hlater ⟨u, hu, he⟩
      rcases List.mem_cons.mp hmem with rfl | hmem
      · exact ⟨t, history, ⟨[], rfl⟩, hlists, hnot⟩
      · exact absurd hlists (hnot t hmem)

/-- The owner of an extension is the table that listed it last, as long as no later table has taken
its name. -/
theorem owner?_of_lastLister {later : List Language} (h : LastLister history e t later) :
    (history.foldl insert empty).owner? e =
      if ∃ u ∈ later, u.id = t.id then none else some t.id := by
  obtain ⟨⟨earlier, rfl⟩, hlists, hlast⟩ := h
  rw [List.foldl_append, List.foldl_cons]
  have hsound := sound_insert (sound_foldl earlier sound_empty) t
  have howner := owner?_insert_of_mem (earlier.foldl insert empty) hlists
  -- From the end: a table stored later can only take the name away.
  induction later using List.reverseRecOn with
  | nil => simpa using howner
  | append_singleton later u ih =>
    have ih := ih fun v hv => hlast v (List.mem_append_left _ hv)
    have hu := hlast u (by simp)
    rw [List.foldl_append, List.foldl_cons, List.foldl_nil,
      owner?_insert (sound_foldl later hsound), if_neg hu]
    by_cases hbefore : ∃ v ∈ later, v.id = t.id
    · have hafter : ∃ v ∈ later ++ [u], v.id = t.id := by
        obtain ⟨v, hv, hid⟩ := hbefore
        exact ⟨v, List.mem_append_left _ hv, hid⟩
      rw [if_pos hbefore] at ih
      rw [ih, if_pos hafter]
      rfl
    · have hiff : (∃ v ∈ later ++ [u], v.id = t.id) ↔ t.id = u.id := by
        constructor
        · rintro ⟨v, hv, hid⟩
          rcases List.mem_append.mp hv with hv | hv
          · exact absurd ⟨v, hv, hid⟩ hbefore
          · rw [← hid, List.mem_singleton.mp hv]
        · intro hid
          exact ⟨u, by simp, hid.symm⟩
      rw [if_neg hbefore] at ih
      simp only [ih, hiff, Option.some.injEq]

/-- The table that listed an extension last has been replaced by one that does not list it. -/
def GivenUp (history : List Language) (e : String) : Prop :=
  ∃ t later, LastLister history e t later ∧ ∃ u ∈ later, u.id = t.id

/-- An extension that some table lists has an owner that lists it, unless the table that listed it
last was replaced by one that does not.  Then it has no owner at all. -/
theorem listed_extension_resolves (h : Reached history r)
    (hlisted : ∃ l ∈ r.languages, canonicalExtension e ∈ l.extensions) :
    (¬GivenUp history (canonicalExtension e) →
        ∃ l ∈ r.languages, canonicalExtension e ∈ l.extensions ∧ r.ownerOf? e = some l.id) ∧
      (GivenUp history (canonicalExtension e) → r.ownerOf? e = none) := by
  have hr := h.eq_foldl
  refine ⟨fun hkept => ?_, fun ⟨t, later, hlast, hreplaced⟩ => ?_⟩
  · obtain ⟨l, hl, he⟩ := hlisted
    have hmem : l ∈ history := by
      have hl : l ∈ (history.foldl insert empty).tables := hr ▸ List.mem_mergeSort.mp hl
      exact (mem_tables_foldl hl).resolve_left List.not_mem_nil
    obtain ⟨t, later, hlast⟩ := exists_lastLister ⟨l, hmem, he⟩
    have howner : r.owner? (canonicalExtension e) = some t.id := by
      rw [hr, owner?_of_lastLister hlast,
        if_neg fun hreplaced => hkept ⟨t, later, hlast, hreplaced⟩]
    obtain ⟨l', hl', hlists⟩ := h.sound.listed howner
    exact ⟨l', List.mem_mergeSort.mpr (List.mem_of_find?_eq_some hl'), hlists,
      by rw [ownerOf?, howner, id_of_table? hl']⟩
  · rw [ownerOf?, hr, owner?_of_lastLister hlast, if_pos hreplaced]

/-- Java takes an extension of Kotlin and gives it up again: first it resolves to Java, then to
nothing. -/
theorem kotlin_extension_resolves :
    ∃ r r', builtin.register (bareTable "java" ["java", "kt"]) = .ok r ∧
      r.register (bareTable "java" ["java"]) = .ok r' ∧
      (∃ l ∈ r.languages, "kt" ∈ l.extensions ∧ r.ownerOf? "kt" = some l.id) ∧
      r'.ownerOf? "kt" = none := by
  have hjava : Text.isBlankText "java" = false := by decide
  have htaken := register_bareTable builtin hjava ["java", "kt"]
  have hgiven := register_bareTable
    (builtin.insert (bareTable "java" ["java", "kt"]).canonical) hjava ["java"]
  have hr := Reached.builtin.stored htaken
  have hr' := hr.stored hgiven
  have hlisted : ∀ r : Registry, r.table? "kotlin" = some Language.Kotlin.table.canonical →
      ∃ l ∈ r.languages, "kt" ∈ l.extensions := by
    intro r h
    exact ⟨_, List.mem_mergeSort.mpr (List.mem_of_find?_eq_some h), by decide +kernel⟩
  refine ⟨_, _, htaken, hgiven, ?_, ?_⟩
  · obtain ⟨hkept, hlost⟩ := listed_extension_resolves (e := "kt") hr (hlisted _ rfl)
    exact hkept fun h => absurd (hlost h) (by decide +kernel)
  · refine (listed_extension_resolves (e := "kt") hr' (hlisted _ rfl)).2 ?_
    refine ⟨_, _, ⟨⟨builtinTables, List.append_assoc ..⟩, ?_, ?_⟩, ?_⟩
    · decide +kernel
    · decide +kernel
    · exact ⟨_, List.mem_singleton_self _, rfl⟩

/-- Kotlin lists an extension that has no owner. -/
theorem kotlin_extension_lost :
    (builtin.registerAll [bareTable "java" ["java", "kt"], bareTable "java" ["java"]]).map
        (fun r => ((r.lookup? "kotlin").map (·.extensions), r.ownerOf? "kt")) =
      .ok (some ["kt", "kts"], none) := by
  decide +kernel

/-! ## What the lookups say of one another -/

theorem nodup_tables_insert (h : (r.tables.map (·.id)).Nodup) (l : Language) :
    ((r.insert l).tables.map (·.id)).Nodup := by
  refine List.nodup_cons.mpr ⟨?_, h.sublist (List.filter_sublist.map _)⟩
  simp

theorem nodup_tables_foldl (history : List Language) (h : (r.tables.map (·.id)).Nodup) :
    ((history.foldl insert r).tables.map (·.id)).Nodup := by
  induction history generalizing r with
  | nil => exact h
  | cons l history ih => exact ih (nodup_tables_insert h l)

theorem Reached.nodup_tables (h : Reached history r) : (r.tables.map (·.id)).Nodup :=
  h.eq_foldl ▸ nodup_tables_foldl history List.nodup_nil

/-- Where names are stored once, a table is found under its own name and no other. -/
theorem table?_eq_some_iff (h : (r.tables.map (·.id)).Nodup) {id : String} :
    r.table? id = some l ↔ l ∈ r.languages ∧ l.id = id := by
  rw [languages, List.mem_mergeSort]
  refine ⟨fun hl => ⟨List.mem_of_find?_eq_some hl, id_of_table? hl⟩, ?_⟩
  rintro ⟨hmem, rfl⟩
  cases hfound : r.table? l.id with
  | none =>
    have hnone := List.find?_eq_none.mp hfound l hmem
    exact absurd (beq_self_eq_true l.id) hnone
  | some t =>
    have ht : t ∈ r.tables := List.mem_of_find?_eq_some hfound
    rw [List.inj_on_of_nodup_map h ht hmem (id_of_table? hfound)]

/-- A refused table leaves the registry as it is. -/
theorem offer_refused {refusal : Refusal} (h : (r.offer l).2 = some refusal) :
    (r.offer l).1 = r := by
  rw [offer] at h ⊢
  cases hregister : r.register l with
  | ok r' =>
    rw [hregister] at h
    cases h
  | error _ => rfl

/-- The owner of an extension is a stored table that lists it.  The listing of all tables is in
increasing order of distinct names, and a table is found under its own name.  A table that is
refused changes no answer. -/
theorem reached_consistent (h : Reached history r) :
    (∀ e id, r.ownerOf? e = some id →
        ∃ l ∈ r.languages, r.table? id = some l ∧ l.id = id ∧ canonicalExtension e ∈ l.extensions) ∧
      r.languages.Pairwise (fun a b => a.id < b.id) ∧
      (∀ id l, r.table? id = some l ↔ l ∈ r.languages ∧ l.id = id) ∧
      ∀ l refusal, (r.offer l).2 = some refusal →
        (r.offer l).1.languages = r.languages ∧
          ∀ name, (r.offer l).1.lookup? name = r.lookup? name ∧
            (r.offer l).1.supports name = r.supports name ∧
            (r.offer l).1.ownerOf? name = r.ownerOf? name := by
  have hnodup := h.nodup_tables
  refine ⟨fun e id howner => ?_, pairwise_lt_mergeSort_name hnodup,
    fun id l => table?_eq_some_iff hnodup, fun l refusal hrefused => ?_⟩
  · obtain ⟨l, hl, hlists⟩ := h.sound.listed howner
    obtain ⟨hmem, hid⟩ := (table?_eq_some_iff hnodup).mp hl
    exact ⟨l, hmem, hl, hid, hlists⟩
  · rw [offer_refused hrefused]
    exact ⟨rfl, fun name => ⟨rfl, rfl, rfl⟩⟩

/-- Java has taken an extension of Kotlin, and a table without name is refused. -/
theorem reached_consistent_taken :
    ∃ r, builtin.register (bareTable "java" ["java", "kt"]) = .ok r ∧
      (∃ l ∈ r.languages, l.id = "java" ∧ "kt" ∈ l.extensions) ∧
      r.languages.Pairwise (fun a b => a.id < b.id) ∧
      (r.offer (bareTable " " ["kt"])).2 = some ⟨" ", .emptyId⟩ ∧
      (r.offer (bareTable " " ["kt"])).1.ownerOf? ".KT" = some "java" := by
  have hjava : Text.isBlankText "java" = false := by decide
  have htaken := register_bareTable builtin hjava ["java", "kt"]
  obtain ⟨hlisted, hsorted, -, hunchanged⟩ := reached_consistent (Reached.builtin.stored htaken)
  have howner : (builtin.insert (bareTable "java" ["java", "kt"]).canonical).ownerOf? ".KT" =
      some "java" := by
    decide +kernel
  have hrefused : ((builtin.insert (bareTable "java" ["java", "kt"]).canonical).offer
      (bareTable " " ["kt"])).2 = some ⟨" ", .emptyId⟩ := by
    decide +kernel
  obtain ⟨l, hmem, -, hid, hlists⟩ := hlisted ".KT" "java" howner
  have hkt : canonicalExtension ".KT" = "kt" := by decide +kernel
  refine ⟨_, htaken, ⟨l, hmem, hid, hkt ▸ hlists⟩, hsorted, hrefused, ?_⟩
  rw [((hunchanged _ _ hrefused).2 ".KT").2.2, howner]

end Cyclomatic.Registry
