import Cyclomatic.Proofs.Alike.Analysis
import Cyclomatic.Proofs.Comments

/-!
# Comments are blanks

Without its comments a source has the same significant tokens (`cores_blankComments`), and with
them all that an analysis finds stays the same (`analyze_blankComments`).
-/

namespace Cyclomatic

theorem toList_blankComments (l : Language) (source : String) :
    (blankComments l source).toList = Scan.blanked l [] source.toList := by
  rw [blankComments, String.toList_ofList, Scan.blanked, Scan.tokens, List.flatMap_map]
  rfl

theorem cores_blankComments {l : Language} (hl : l.Spaced) (source : String) :
    (Code.ofSource l (blankComments l source)).cores = (Code.ofSource l source).cores := by
  rw [Code.cores_ofSource, Code.cores_ofSource, toList_blankComments]
  exact Scan.lexemes_blanked hl .plain false source.toList

theorem akin_blankComments {l : Language} (hl : l.Spaced) (source : String) :
    List.Forall₂ Code.LexemeAkin (Code.ofSource l source).cores
      (Code.ofSource l (blankComments l source)).cores := by
  rw [cores_blankComments hl]
  exact List.forall₂_same.mpr fun _ _ => ⟨⟨rfl, .inl rfl⟩, rfl⟩

theorem alike_blankComments {name : String} {l : Language}
    (hl : Registry.builtin.lookup? name = some l) (source : String) :
    Code.Alike l (Code.ofSource l source) (Code.ofSource l (blankComments l source)) := by
  have hspaced := spaced_builtin hl
  refine Code.alike_of_cores (akin_blankComments hspaced source) (legible_builtin hl)
    (uniform_builtin hl) ?_
  intro i
  rw [Code.text_eq_cores, Code.text_eq_cores, cores_blankComments hspaced]
  exact .inl rfl

/-- Comments are blanks.  A source in a built-in language without its comments has the same
significant tokens after the same line breaks and the same brackets, the same functions and
declarations with the same scores and decisions, and the same result. -/
theorem analyze_blankComments {name : String} {l : Language}
    (hl : Registry.builtin.lookup? name = some l) (source : String) :
    (Code.ofSource l (blankComments l source)).cores = (Code.ofSource l source).cores ∧
      (Code.ofSource l (blankComments l source)).partners = (Code.ofSource l source).partners ∧
      (∃ forest forest', detect l (Code.ofSource l source) = .ok forest ∧
        detect l (Code.ofSource l (blankComments l source)) = .ok forest' ∧
        forest'.core = forest.core ∧
        ∀ options id, (forest'.at? id).map
            ((Code.ofSource l (blankComments l source)).rating l options forest') =
          (forest.at? id).map ((Code.ofSource l source).rating l options forest)) ∧
      ∀ options file,
        (({ options := options } : Engine).analyze file (blankComments l source) name).map
            FileResult.core =
          (({ options := options } : Engine).analyze file source name).map FileResult.core := by
  have hspaced := spaced_builtin hl
  have halike := alike_blankComments hl source
  have hbraceless := braceless_builtin hl
  have hi := Code.inRange_builtin hl source
  have hi' := Code.inRange_builtin hl (blankComments l source)
  refine ⟨cores_blankComments hspaced source,
    Code.partners_of_cores (akin_blankComments hspaced source),
    detect_rating_alike hbraceless halike hi hi', ?_⟩
  intro options file
  rw [Engine.analyze_of_lookup? hl, Engine.analyze_of_lookup? hl]
  exact analyzeIn_alike hbraceless halike hi hi' options file

/-- A comment inside an operator parts it, and one that spans lines stands for a line feed. -/
theorem analyze_blankComments_java :
    blankComments Language.Java.table.canonical "int f(/* a */) { return a &/**/& b; // c
} /* d
 */" =
      "int f( ) { return a & & b;  
} 
" ∧
    ∀ options file,
      (({ options := options } : Engine).analyze file
          (blankComments Language.Java.table.canonical
            "int f(/* a */) { return a &/**/& b; // c
} /* d
 */") "java").map FileResult.core =
        (({ options := options } : Engine).analyze file
          "int f(/* a */) { return a &/**/& b; // c
} /* d
 */" "java").map FileResult.core := by
  have hl : Registry.builtin.lookup? "java" = some Language.Java.table.canonical := rfl
  refine ⟨?_, (analyze_blankComments hl _).2.2.2⟩
  rw [Language.Java.canonical_eq]
  decide +kernel

end Cyclomatic
