import Cyclomatic.Text.Lower

/-!
# Case folding

Two characters differ only in case if they fold to the same character.  Folding is lower case,
but for a few characters that have more than one small form or none.
-/

namespace Cyclomatic.Text

/-- The characters that do not fold to their lower case. -/
def foldRows : List CaseRow :=
  [
    ⟨0xB5, 0xB5, 1, 775⟩, ⟨0x17F, 0x17F, 1, -268⟩, ⟨0x345, 0x345, 1, 116⟩,
    ⟨0x3C2, 0x3C2, 1, 1⟩, ⟨0x3D0, 0x3D0, 1, -30⟩, ⟨0x3D1, 0x3D1, 1, -25⟩,
    ⟨0x3D5, 0x3D5, 1, -15⟩, ⟨0x3D6, 0x3D6, 1, -22⟩, ⟨0x3F0, 0x3F0, 1, -54⟩,
    ⟨0x3F1, 0x3F1, 1, -48⟩, ⟨0x3F5, 0x3F5, 1, -64⟩, ⟨0x13A0, 0x13F5, 1, 0⟩,
    ⟨0x13F8, 0x13FD, 1, -8⟩, ⟨0x1C80, 0x1C80, 1, -6222⟩, ⟨0x1C81, 0x1C81, 1, -6221⟩,
    ⟨0x1C82, 0x1C82, 1, -6212⟩, ⟨0x1C83, 0x1C84, 1, -6210⟩, ⟨0x1C85, 0x1C85, 1, -6211⟩,
    ⟨0x1C86, 0x1C86, 1, -6204⟩, ⟨0x1C87, 0x1C87, 1, -6180⟩, ⟨0x1C88, 0x1C88, 1, 35267⟩,
    ⟨0x1E9B, 0x1E9B, 1, -58⟩, ⟨0x1FBE, 0x1FBE, 1, -7173⟩, ⟨0xAB70, 0xABBF, 1, -38864⟩
  ]

/-- The character that stands for a character and its other cases. -/
def fold (c : Char) : Char :=
  match foldRows.find? (·.holds c.toNat) with
  | some r => Char.ofNat (r.shift + c.toNat).toNat
  | none => lowerChar c

/-- The characters of a row that move to the given one. -/
def CaseRow.sourceOf? (r : CaseRow) (target : Char) : Option Char :=
  let n := ((target.toNat : Int) - r.shift).toNat
  if r.holds n then some (Char.ofNat n) else none

/-- The characters that differ from the given one at most in case. -/
def caseVariants (c : Char) : List Char :=
  let f := fold c
  let ascii := if 97 ≤ f.toNat && f.toNat ≤ 122 then [Char.ofNat (f.toNat - 32)] else []
  (f :: ascii ++ (caseRows ++ foldRows).filterMap (·.sourceOf? f)).filter (fold · == f)

end Cyclomatic.Text
