import Cyclomatic.Proofs.Decisions
import Cyclomatic.Proofs.Registry
import Cyclomatic.Proofs.Sums

/-!
# Scores in words of 32 bits

A score starts at one and takes the increment of each decision, in a word of 32 bits.  The
increments come from a table that was checked when it was registered, so each of them raises the
score (`Registry.Reached.increment_ne_zero`).  But nothing bounds them.  A score that is reported is
one and the sum of the increments, and an addition that leaves the word ends the analysis without a
result (`analyze_score`).  A source of `n` bytes in a language with increments up to `m` is safe if
`1 + m * n` fits.

A single decision with the largest increment ends the analysis (`analyze_loudest_overflows`).
-/

namespace Cyclomatic

/-! ## Increments of registered tables -/

theorem DecisionRule.increment_ne_zero {rule : DecisionRule} (h : rule.fault? = none) :
    rule.increment ≠ 0 := by
  intro hzero
  unfold fault? at h
  split at h <;> simp [hzero] at h

/-- The increments of a table that was accepted are not zero. -/
theorem Language.increment_ne_zero {l : Language} (h : l.fault? = none) :
    ∀ rule ∈ l.decisions, rule.increment ≠ 0 := by
  have hrules : l.decisions.findSome? DecisionRule.fault? = none := by
    unfold fault? at h
    split_ifs at h
    split at h
    · cases h
    · exact h
  exact fun rule hrule =>
    DecisionRule.increment_ne_zero (List.findSome?_eq_none_iff.mp hrules rule hrule)

theorem Language.canonical_decisions (l : Language) : l.canonical.decisions = l.decisions := by
  unfold canonical
  rfl

theorem Registry.mem_insert {r : Registry} {l t : Language} (h : t ∈ (r.insert l).tables) :
    t = l ∨ t ∈ r.tables := by
  rcases List.mem_cons.mp h with h | h
  · exact Or.inl h
  · exact Or.inr (List.mem_of_mem_filter h)

theorem Registry.Reached.increment_ne_zero {history : List Language} {registry : Registry}
    (h : Registry.Reached history registry) :
    ∀ l ∈ registry.tables, ∀ rule ∈ l.decisions, rule.increment ≠ 0 := by
  induction h with
  | empty => exact fun l hl => nomatch hl
  | builtin =>
    rw [Registry.builtin_tables]
    decide
  | @stored history r r' l _ hok ih =>
    have hfault : l.fault? = none := by
      cases hfault : l.fault? with
      | none => rfl
      | some fault => simp [Registry.register, Language.validate, hfault] at hok
    intro t ht
    rw [Registry.register_eq_ok hok] at ht
    rcases Registry.mem_insert ht with rfl | ht
    · rw [Language.canonical_decisions]
      exact Language.increment_ne_zero hfault
    · exact ih t ht
  | refused _ _ ih => exact ih

/-! ## Decisions of a source -/

namespace Code

variable {code : Code} {l : Language} {options : ScoringOptions}

/-- A token that can decide has a byte of its own. -/
theorem Laid.offset_lt_bytes (hl : code.Laid) {k : Nat} (hk : code.decides k = true) :
    code.offset k < code.bytes := by
  obtain ⟨t, ht, hkind⟩ := exists_token_of_decides hk
  have hsize : k < code.size := by
    obtain ⟨x, hx, -⟩ := Option.map_eq_some_iff.mp ht
    exact (Array.getElem?_eq_some_iff.mp hx).1
  rw [← Laid.offset_of_size_le (Nat.le_refl code.size)]
  exact hl.offset_lt ht hkind hsize

end Code

/-- There are no more decisions than bytes. -/
theorem length_le_of_offsets {ds : List Decision} {n : Nat}
    (horder : ds.Pairwise fun a b => a.offset < b.offset) (hlt : ∀ d ∈ ds, d.offset < n) :
    ds.length ≤ n := by
  have hnodup : (ds.map (·.offset)).Nodup := List.pairwise_map.mpr (horder.imp Nat.ne_of_lt)
  have hsub : ds.map (·.offset) ⊆ List.range n := by
    intro x hx
    obtain ⟨d, hd, rfl⟩ := List.mem_map.mp hx
    exact List.mem_range.mpr (hlt d hd)
  simpa using (List.subperm_of_subset hnodup hsub).length_le

/-- The decisions of a function raise its score by no more than the largest increment for each byte
of the source. -/
theorem Walk.Ordered.incrementSum_decisions_le {code : Code} {l : Language} {i id m : Nat}
    {w : Walk} {e : Entity} (h : Walk.Ordered code i w) (hp : code.Paired) (hl : code.Laid)
    (he : w.forest.at? id = some e) (hm : ∀ rule ∈ l.decisions, rule.increment.toNat ≤ m)
    (options : ScoringOptions) :
    incrementSum (code.decisions l options w.forest e) ≤ m * code.bytes := by
  have horder := h.inOrder hp he
  have hlength : (code.decisions l options w.forest e).length ≤ code.bytes := by
    refine length_le_of_offsets (Code.pairwise_decisionsFrom hl horder) fun d hd => ?_
    obtain ⟨k, rule, rfl, hdecides, -⟩ := Code.mem_decisionsFrom horder hd
    exact hl.offset_lt_bytes hdecides
  have hincrement : ∀ d ∈ code.decisions l options w.forest e, d.increment.toNat ≤ m := by
    intro d hd
    obtain ⟨rule, hrule, heq⟩ := Code.exists_rule_of_mem hd
    rw [heq]
    exact hm rule hrule
  exact (incrementSum_le hincrement).trans (Nat.mul_le_mul_left m hlength)

/-- In a language of a registry that was built by registering, every decision raises the score, and
a score that is reported is one and the sum of the increments.  A file has a result if and only if
all its functions are scored.  A function that is where it is recorded to be is not scored if and
only if a number leaves its range: the depth of a generic list at a token that is judged, or the
sum.  The sum does not if the largest increment for each byte of the source fits. -/
theorem analyze_score {history : List Language} {registry : Registry}
    (hreached : Registry.Reached history registry) (options : ScoringOptions)
    (file source language : String) (l : Language) (hl : registry.lookup? language = some l) :
    (∀ r, ({ registry := registry, options := options } : Engine).analyze file source language =
        .ok r → ∀ f ∈ r.all,
      (∀ d ∈ f.decisions, d.increment ≠ 0) ∧ scoreFits 1 f.decisions = true ∧
        f.score.toNat = 1 + incrementSum f.decisions ∧ 1 ≤ f.score.toNat) ∧
    ∀ forest, detect l (Code.ofSource l source) = .ok forest →
      ((∃ r, ({ registry := registry, options := options } : Engine).analyze file source language =
          .ok r) ↔
        ∀ e ∈ forest.entities, ∃ ds,
          (Code.ofSource l source).score l options forest e = .ok ds) ∧
      (∀ e ∈ forest.entities,
        ((Code.ofSource l source).score l options forest e = .error .overflow ↔
          (Code.ofSource l source).spanFault? forest e = none ∧
            ((∃ v ∈ (Code.ofSource l source).visits l options forest e,
                (Code.ofSource l source).judgeUnderflows l v.stack v.token = true) ∨
              2 ^ 32 ≤ 1 + incrementSum ((Code.ofSource l source).decisions l options forest e)))) ∧
      ∀ m, (∀ rule ∈ l.decisions, rule.increment.toNat ≤ m) →
        1 + m * source.utf8ByteSize < 2 ^ 32 →
          (Code.ofSource l source).ScoresFit l options forest := by
  have hp := Code.paired_ofSource l source
  have hlaid := Code.laid_ofSource l source
  refine ⟨fun r hr f hf => ?_, fun forest hforest => ?_⟩
  · obtain ⟨l', forest, hl', hforest, hts⟩ := Engine.analyze_ok hr
    obtain rfl : l = l' := Option.some.inj (hl.symm.trans hl')
    obtain ⟨j, w, hrun, -, rfl⟩ := Walk.go_run hforest
    have hlinked := (Walk.ordered_run hp hrun).linked
    obtain ⟨e, he, hscored, hdecisions⟩ := scored_of_mem_preorders hlinked hts hf
    have hscore := (scoredTrees_ok_all hlinked hts he).1
    have hfits := Code.scoreFits_of_score hscore
    rw [← hdecisions] at hfits
    have hsum : f.score.toNat = 1 + incrementSum f.decisions := by
      rw [show f.score = scoreOf f.decisions from congrArg (·.score) hscored]
      exact toNat_scoreOf (scoreFits_iff.mp hfits)
    refine ⟨fun d hd => ?_, hfits, hsum, by omega⟩
    rw [hdecisions] at hd
    obtain ⟨rule, hrule, heq⟩ := Code.exists_rule_of_mem hd
    rw [heq]
    exact hreached.increment_ne_zero l (Registry.mem_of_lookup? hl) rule hrule
  · obtain ⟨j, w, hrun, -, rfl⟩ := Walk.go_run hforest
    have hordered := Walk.ordered_run hp hrun
    refine ⟨?_, fun e he => ?_, fun m hm hbytes e he => ?_⟩
    · rw [← exists_scoredTrees_iff l options _ hordered.linked]
      simp only [Engine.analyze, hl, analyzeIn_of_detect hforest]
      cases scoredTrees l options (Code.ofSource l source) w.forest w.forest.entities.size
          w.forest.roots with
      | error fault =>
        refine iff_of_false ?_ ?_
        · rintro ⟨_, ⟨⟩⟩
        · rintro ⟨_, ⟨⟩⟩
      | ok ts => exact iff_of_true ⟨_, rfl⟩ ⟨_, rfl⟩
    · rw [Code.score_eq_overflow_iff, Code.overflows_iff]
    · obtain ⟨id, hid⟩ := Forest.mem_entities.mp he
      have hle := hordered.incrementSum_decisions_le hp hlaid hid hm options
      have hbound : m * (Code.ofSource l source).bytes = m * source.utf8ByteSize := rfl
      omega

/-! ## A loud decision -/

/-- A small language whose one decision has the given increment. -/
def loudTable (increment : UInt32) : Language where
  id := "toy"
  comments := {}
  strings := {}
  keywords := ["function", "if"]
  decisions := [{ token := "if", category := .conditional, increment := increment }]
  signatures := { introducers := ["function"] }

/-- The engine that knows only this language. -/
def loudEngine (increment : UInt32) : Engine where
  registry := { tables := [loudTable increment] }

/-- The table is accepted, whatever the increment is, unless it is zero. -/
theorem register_loudTable {increment : UInt32} (h : increment ≠ 0) :
    Registry.empty.register (loudTable increment) = .ok (loudEngine increment).registry := by
  have hid : Text.lower (Text.trim "toy") = "toy" := by decide +kernel
  have hblank : Text.isBlankText "toy" = false := by decide
  have hfault : (loudTable increment).fault? = none := by
    simp [Language.fault?, loudTable, hblank, DecisionRule.fault?, h]
  have hcanonical : (loudTable increment).canonical = loudTable increment := by
    simp [Language.canonical, loudTable, canonicalOperators, canonicalDelimiters, hid,
      List.eraseReps, List.eraseRepsBy]
  simp only [Registry.register, Language.validate, hfault, hcanonical]
  rfl

/-- The functions of a result: score and increments. -/
def FileResult.scores (r : FileResult) : List (Nat × List Nat) :=
  r.all.map fun f => (f.score.toNat, f.decisions.map (·.increment.toNat))

/-- The largest increment but one fills the word. -/
theorem analyze_loud_fits : ∃ r,
    (loudEngine 4294967294).analyze "input" "function f() \x7b if \x7d" "toy" = .ok r ∧
      r.scores = [(4294967295, [4294967294])] ∧
      ∀ f ∈ r.all, f.score.toNat = 1 + incrementSum f.decisions := by
  obtain ⟨r, hr, hscores⟩ : ∃ r,
      (loudEngine 4294967294).analyze "input" "function f() \x7b if \x7d" "toy" = .ok r ∧
        r.scores = [(4294967295, [4294967294])] := exists_ok_of_view (by decide +kernel)
  have hreached := Registry.Reached.empty.stored (@register_loudTable 4294967294 (by decide))
  have hl : (loudEngine 4294967294).registry.lookup? "toy" = some (loudTable 4294967294) := by
    decide +kernel
  obtain ⟨hall, -⟩ := analyze_score hreached {} "input" "function f() \x7b if \x7d" "toy" _ hl
  exact ⟨r, hr, hscores, fun f hf => (hall r hr f hf).2.2.1⟩

/-- The largest increment leaves the word. -/
theorem analyze_loudest_overflows :
    Registry.empty.register (loudTable 4294967295) = .ok (loudEngine 4294967295).registry ∧
      (loudEngine 4294967295).analyze "input" "function f() \x7b if \x7d" "toy" =
        .error .overflow :=
  ⟨register_loudTable (by decide), eq_error_of_faultOf? (by decide +kernel)⟩

end Cyclomatic
