import Cyclomatic.Proofs.Builtin
import Cyclomatic.Proofs.Casing
import Cyclomatic.Proofs.Sorting
import Cyclomatic.Text.Utf8
import Mathlib.Data.List.Perm.Basic
import Mathlib.Data.List.TakeWhile

/-!
# Canonical tables

A table that is accepted has one canonical form.  Checking it again finds no fault and changes
nothing, and the order and number of the operators in the table do not matter
(`validate_canonical`).

* The operators are sorted and then lose their adjacent repetitions.  The order is total, so equal
  operators are adjacent and the list is strictly ordered (`pairwise_canonicalOperators`).  Such a
  list is determined by its members (`canonicalOperators_congr`).
* Operators of the same length are in the order of their characters.  That is the order of their
  bytes (`Text.bytes_lt_bytes_iff`).
* The delimiters are sorted by length only, and the sort is stable (`filter_canonicalDelimiters`).
* The name and the extensions are final by the theory of lower case.
-/

namespace Cyclomatic

/-! ## The order of bytes -/

namespace Text

/-- The bytes of a smaller character come before those of a larger one, whatever follows. -/
theorem encode_lt_encode {c d : Char} (h : c < d) (xs ys : List UInt8) :
    String.utf8EncodeChar c ++ xs < String.utf8EncodeChar d ++ ys := by
  have hlt : c.val.toNat < d.val.toNat := UInt32.lt_iff_toNat_lt.mp h
  have hd : d.val.toNat < 0x110000 := by
    rcases d.valid with hvalid | hvalid
    · omega
    · omega
  have hthird (n : Nat) : n / 4096 = n / 64 / 64 := by omega
  have hfourth (n : Nat) : n / 262144 = n / 64 / 64 / 64 := by omega
  unfold String.utf8EncodeChar
  generalize c.val.toNat = v at hlt
  generalize d.val.toNat = w at hlt hd
  dsimp only
  rw [hthird, hthird, hfourth, hfourth]
  -- The lead bytes decide if the numbers of bytes differ, else the first digit that differs.
  repeat' split
  all_goals
    simp only [List.cons_append, List.nil_append, List.cons_lt_cons_iff, UInt8.lt_iff_toNat_lt,
      ← UInt8.toNat_inj, UInt8.toNat_ofNat']
    simp (disch := omega) only [Nat.mod_eq_of_lt (b := 2 ^ 8)]
    omega

theorem flatMap_encode_lt {cs ds : List Char} (h : cs < ds) :
    cs.flatMap String.utf8EncodeChar < ds.flatMap String.utf8EncodeChar := by
  induction ds generalizing cs with
  | nil => cases h
  | cons d ds ih =>
    rw [List.flatMap_cons]
    cases cs with
    | nil =>
      obtain ⟨b, bs, hbytes⟩ := List.exists_cons_of_ne_nil (String.utf8EncodeChar_ne_nil (c := d))
      rw [hbytes]
      exact List.nil_lt_cons ..
    | cons c cs =>
      rw [List.flatMap_cons]
      rcases List.cons_lt_cons_iff.mp h with hlt | ⟨rfl, hlt⟩
      · exact encode_lt_encode hlt _ _
      · exact List.append_left_lt (ih hlt)

theorem toList_loop (bs : ByteArray) (i : Nat) (r : List UInt8) :
    ByteArray.toList.loop bs i r = r.reverse ++ bs.data.toList.drop i := by
  fun_induction ByteArray.toList.loop bs i r with
  | case1 i r h ih =>
    rw [ih, List.drop_eq_getElem_cons (i := i) h, List.reverse_cons, List.append_assoc,
      Array.getElem_toList, ByteArray.get!, getElem!_pos bs.data i h]
    rfl
  | case2 i r h => rw [List.drop_eq_nil_of_le (Nat.le_of_not_lt h), List.append_nil]

theorem bytes_eq (s : String) : bytes s = s.toList.flatMap String.utf8EncodeChar := by
  have hbytes : bytes s = s.toByteArray.data.toList := toList_loop s.toByteArray 0 []
  rw [hbytes, ← String.utf8Encode_toList, List.utf8Encode, List.data_toByteArray]

/-- Texts are ordered by their characters as by their bytes. -/
theorem bytes_lt_bytes_iff {a b : String} : bytes a < bytes b ↔ a < b := by
  have hmono : ∀ {a b : String}, a < b → bytes a < bytes b := by
    intro a b h
    rw [bytes_eq, bytes_eq]
    exact flatMap_encode_lt h
  refine ⟨fun h => ?_, hmono⟩
  rcases Std.lt_trichotomy a b with hab | rfl | hba
  · exact hab
  · exact absurd h (List.lt_irrefl _)
  · exact absurd (hmono hba) (List.lt_asymm h)

/-- A name that is not blank is not blank in canonical form. -/
theorem isBlankText_lower_trim {s : String} (h : isBlankText s = false) :
    isBlankText (lower (trim s)) = false := by
  have htrim : trimChars s.toList ≠ [] := by
    intro hnil
    rw [trimChars, List.reverse_eq_nil_iff, List.dropWhile_eq_nil_iff] at hnil
    have hfront := @head?_dropWhile_not isBlank s.toList
    cases hdrop : s.toList.dropWhile isBlank with
    | nil =>
      rw [List.dropWhile_eq_nil_iff] at hdrop
      rw [isBlankText, List.all_eq_true.mpr hdrop] at h
      cases h
    | cons c cs =>
      rw [hdrop] at hnil hfront
      have hblank := hnil c (by simp)
      rw [hfront c rfl] at hblank
      cases hblank
  have hends := @trimmed_lowerFrom [] _ (trimmed_trimChars s.toList)
  obtain ⟨c, cs, hcs⟩ := List.exists_cons_of_ne_nil htrim
  simp only [isBlankText, lower, trim, String.toList_ofList]
  rw [hcs, lowerFrom_cons] at hends ⊢
  obtain ⟨x, xs, hform⟩ := List.exists_cons_of_ne_nil (smallForm_ne_nil [] c cs)
  rw [hform, List.cons_append] at hends ⊢
  rw [List.all_cons, hends.1 x rfl, Bool.false_and]

end Text

/-! ## Operators -/

/-- One operator stands before another: it has more bytes, or as many and smaller ones. -/
def OperatorLt (a b : String) : Prop :=
  b.utf8ByteSize < a.utf8ByteSize ∨
    a.utf8ByteSize = b.utf8ByteSize ∧ Text.bytes a < Text.bytes b

theorem operatorLt_of_le {a b : String} (h : OperatorLe a b ∧ a ≠ b) : OperatorLt a b := by
  obtain ⟨hle, hne⟩ := h
  rcases operatorLe_iff.mp hle with hlt | ⟨heq, hle⟩
  · exact .inl hlt
  · refine .inr ⟨heq, Text.bytes_lt_bytes_iff.mpr (String.not_le.mp fun hge => ?_)⟩
    exact hne (String.le_antisymm hle hge)

theorem pairwise_canonicalOperators (ops : List String) :
    (canonicalOperators ops).Pairwise fun a b => OperatorLe a b ∧ a ≠ b := by
  rw [canonicalOperators_eq]
  exact pairwise_ne_eraseReps (List.pairwise_insertionSort OperatorLe _)

theorem pairwise_size_canonicalOperators (ops : List String) :
    (canonicalOperators ops).Pairwise fun a b => b.utf8ByteSize ≤ a.utf8ByteSize := by
  refine (pairwise_canonicalOperators ops).imp fun hle => ?_
  rcases operatorLe_iff.mp hle.1 with hlt | ⟨heq, -⟩
  · exact Nat.le_of_lt hlt
  · exact Nat.le_of_eq heq.symm

/-- A list in the order of operators is determined by its members. -/
theorem canonicalOperators_eq_of_mem {ops ordered : List String}
    (hordered : ordered.Pairwise fun a b => OperatorLe a b ∧ a ≠ b)
    (h : ∀ o, o ∈ ordered ↔ o ∈ ops ∧ o ≠ "") : canonicalOperators ops = ordered := by
  have hcanonical := pairwise_canonicalOperators ops
  have hperm : (canonicalOperators ops).Perm ordered := by
    rw [List.perm_ext_iff_of_nodup (hcanonical.imp And.right) (hordered.imp And.right)]
    intro o
    rw [mem_canonicalOperators, h]
  exact hperm.eq_of_pairwise (fun a b _ _ hab hba => antisymm hab.1 hba.1) hcanonical hordered

/-- Only the members of a list of operators matter. -/
theorem canonicalOperators_congr {ops ops' : List String} (h : ∀ o, o ∈ ops ↔ o ∈ ops') :
    canonicalOperators ops = canonicalOperators ops' :=
  canonicalOperators_eq_of_mem (pairwise_canonicalOperators ops') fun o => by
    rw [mem_canonicalOperators, h]

theorem canonicalOperators_canonicalOperators (ops : List String) :
    canonicalOperators (canonicalOperators ops) = canonicalOperators ops :=
  canonicalOperators_eq_of_mem (pairwise_canonicalOperators ops) fun o => by
    rw [mem_canonicalOperators, and_assoc, and_self]

/-! ## Delimiters -/

theorem openingLe_trans (a b c : Delimiter)
    (hab : decide (b.opening.utf8ByteSize ≤ a.opening.utf8ByteSize))
    (hbc : decide (c.opening.utf8ByteSize ≤ b.opening.utf8ByteSize)) :
    decide (c.opening.utf8ByteSize ≤ a.opening.utf8ByteSize) :=
  decide_eq_true (Nat.le_trans (of_decide_eq_true hbc) (of_decide_eq_true hab))

theorem openingLe_total (a b : Delimiter) :
    decide (b.opening.utf8ByteSize ≤ a.opening.utf8ByteSize) ||
      decide (a.opening.utf8ByteSize ≤ b.opening.utf8ByteSize) := by
  simpa using Nat.le_total b.opening.utf8ByteSize a.opening.utf8ByteSize

theorem pairwise_canonicalDelimiters (ds : List Delimiter) :
    (canonicalDelimiters ds).Pairwise fun a b =>
      b.opening.utf8ByteSize ≤ a.opening.utf8ByteSize :=
  (List.pairwise_mergeSort openingLe_trans openingLe_total ds).imp of_decide_eq_true

/-- Delimiters whose openings have the same length keep their places. -/
theorem filter_canonicalDelimiters (ds : List Delimiter) (n : Nat) :
    (canonicalDelimiters ds).filter (·.opening.utf8ByteSize == n) =
      ds.filter (·.opening.utf8ByteSize == n) := by
  refine filter_mergeSort openingLe_trans openingLe_total ?_ ds
  intro a b ha hb
  rw [beq_iff_eq] at ha hb
  rw [ha, hb]
  exact decide_eq_true (Nat.le_refl n)

/-! ## Tables -/

theorem Language.canonical_canonical (l : Language) : l.canonical.canonical = l.canonical := by
  simp only [Language.canonical, Text.lower_trim_lower_trim, canonicalOperators_canonicalOperators,
    canonicalDelimiters_eq (pairwise_canonicalDelimiters _), List.map_map,
    Function.comp_def, canonicalExtension_canonicalExtension]

/-- A table without fault. -/
theorem Language.fault?_eq_none_iff {l : Language} :
    l.fault? = none ↔
      Text.isBlankText l.id = false ∧ (∀ m ∈ l.comments.line, m.isEmpty = false) ∧
        (∀ b ∈ l.comments.block, b.opening.isEmpty = false ∧ b.closing.isEmpty = false) ∧
        (∀ d ∈ l.strings.delimiters, d.fault? = none) ∧ ∀ r ∈ l.decisions, r.fault? = none := by
  have hline : (∀ m ∈ l.comments.line, m.isEmpty = false) ↔
      (l.comments.line.any (·.isEmpty)) = false := by
    simp
  have hblock : (∀ b ∈ l.comments.block, b.opening.isEmpty = false ∧ b.closing.isEmpty = false) ↔
      (l.comments.block.any fun b => b.opening.isEmpty || b.closing.isEmpty) = false := by
    cases l.comments.block with
    | none => simp
    | some b => simp
  rw [hline, hblock, ← List.findSome?_eq_none_iff, ← List.findSome?_eq_none_iff, fault?]
  cases Text.isBlankText l.id with
  | true => simp
  | false =>
    cases l.comments.line.any (·.isEmpty) with
    | true => simp
    | false =>
      cases l.comments.block.any fun b => b.opening.isEmpty || b.closing.isEmpty with
      | true => simp
      | false =>
        cases l.strings.delimiters.findSome? Delimiter.fault? with
        | some fault => simp
        | none => simp

/-- A table without fault has none in canonical form. -/
theorem Language.fault?_canonical {l : Language} (h : l.fault? = none) :
    l.canonical.fault? = none := by
  obtain ⟨hid, hline, hblock, hdelimiters, hdecisions⟩ := fault?_eq_none_iff.mp h
  rw [fault?_eq_none_iff, canonical]
  refine ⟨Text.isBlankText_lower_trim hid, hline, hblock, fun d hd => ?_, hdecisions⟩
  exact hdelimiters d (mem_canonicalDelimiters.mp hd)

theorem Language.validate_eq_ok_iff {l table : Language} :
    l.validate = .ok table ↔ l.fault? = none ∧ table = l.canonical := by
  unfold Language.validate
  cases l.fault? with
  | some fault => simp
  | none => simp [eq_comm]

/-- Canonical form is canonical.  An accepted table has it for good.  Its operators are those of the
table without the empty one, strictly ordered, and do not depend on the order and number in which
the table has them.  Its delimiters are those of the table with the longest openings first, and
those of one length in the order of the table. -/
theorem validate_canonical {l table : Language} (h : l.validate = .ok table) :
    table.validate = .ok table ∧
      ((∀ o, o ∈ table.operators ↔ o ∈ l.operators ∧ o ≠ "") ∧
        table.operators.Pairwise OperatorLt) ∧
      (∀ ops, (∀ o, o ∈ ops ↔ o ∈ l.operators) →
        { l with operators := ops }.validate = .ok table) ∧
      table.strings.delimiters.Perm l.strings.delimiters ∧
      (table.strings.delimiters.Pairwise fun a b =>
        b.opening.utf8ByteSize ≤ a.opening.utf8ByteSize) ∧
      ∀ n, table.strings.delimiters.filter (·.opening.utf8ByteSize == n) =
        l.strings.delimiters.filter (·.opening.utf8ByteSize == n) := by
  obtain ⟨hfault, rfl⟩ := Language.validate_eq_ok_iff.mp h
  refine ⟨?_, ⟨fun o => mem_canonicalOperators, ?_⟩, fun ops hops => ?_,
    List.mergeSort_perm .., pairwise_canonicalDelimiters _, filter_canonicalDelimiters _⟩
  · exact Language.validate_eq_ok_iff.mpr
      ⟨Language.fault?_canonical hfault, l.canonical_canonical.symm⟩
  · exact (pairwise_canonicalOperators _).imp operatorLt_of_le
  · refine Language.validate_eq_ok_iff.mpr ⟨hfault, ?_⟩
    simp only [Language.canonical, canonicalOperators_congr hops]

/-- A table with repeated and empty operators, and with two delimiters of one opening. -/
def untidy : Language where
  id := " Toy "
  extensions := ["..TOY"]
  comments := {}
  strings := { delimiters := [.quoted "'" none true none, .quoted "'" none false none,
    .quoted "''" none false none] }
  operators := ["=", "", "é", "==", "<=", "=", "=="]

/-- The operators of an untidy table may be listed in another order. -/
theorem validate_canonical_untidy :
    untidy.validate = .ok untidy.canonical ∧
      untidy.canonical.validate = .ok untidy.canonical ∧
      { untidy with operators := ["==", "=", "é", "", "<="] }.validate = .ok untidy.canonical ∧
      untidy.canonical.strings.delimiters.filter (·.opening.utf8ByteSize == 1) =
        [.quoted "'" none true none, .quoted "'" none false none] := by
  have h : untidy.validate = .ok untidy.canonical :=
    Language.validate_eq_ok_iff.mpr ⟨by decide +kernel, rfl⟩
  obtain ⟨hagain, -, hoperators, -, -, hstable⟩ := validate_canonical h
  refine ⟨h, hagain, hoperators _ fun o => ?_, (hstable 1).trans (by decide +kernel)⟩
  simp only [untidy, List.mem_cons, List.not_mem_nil]
  tauto

end Cyclomatic
