import Cyclomatic.Proofs.Brackets
import Cyclomatic.Proofs.Scanning

/-!
# Tokens tile the source

Each step of the scanner cuts the text ahead in two, so the tokens follow one another without gap
from the first byte to the last (`scan_tiles`).  This holds for the table of every language, since
no step looks at the table to find out how far it went.

The significant tokens of a code are some of these tokens, in the same order (`Code.Laid`).  Hence
their offsets increase with their indices.  A piece of a literal may be empty, but every other
token has a byte, so two tokens that are not literals never share an offset.
-/

namespace Cyclomatic

/-! ## Pieces of a source -/

/-- The token is the piece of the source between its offsets, and these stand between
characters. -/
structure Token.PieceOf (source : String) (t : Token) : Prop where
  /-- A character or the end stands at the first offset. -/
  validStart : (String.Pos.Raw.mk t.start).IsValid source
  /-- A character or the end stands at the second offset. -/
  validStop : (String.Pos.Raw.mk t.stop).IsValid source
  /-- The bytes between them are those of the text. -/
  bytes : source.toByteArray.extract t.start t.stop = t.text.toByteArray

/-- The tokens follow one another without gap, from one offset to another. -/
def Tiles (start stop : Nat) : List Token → Prop
  | [] => start = stop
  | t :: ts => t.start = start ∧ t.start ≤ t.stop ∧ Tiles t.stop stop ts

/-- The end of a front is the boundary of a character. -/
theorem isValid_append (front back : String) :
    (String.Pos.Raw.mk front.utf8ByteSize).IsValid (front ++ back) :=
  String.Pos.Raw.isValid_iff_exists_append.mpr ⟨front, back, rfl, rfl⟩

/-- The middle of three texts is a piece of the whole. -/
theorem Token.pieceOf_append (kind : Kind) (front text back : String) :
    Token.PieceOf (front ++ (text ++ back))
      ⟨kind, text, front.utf8ByteSize, front.utf8ByteSize + text.utf8ByteSize⟩ where
  validStart := isValid_append front (text ++ back)
  validStop := by
    have h := isValid_append (front ++ text) back
    rwa [String.utf8ByteSize_append, String.append_assoc] at h
  bytes := by
    have h := ByteArray.extract_append_size_add (a := front.toByteArray)
      (b := (text ++ back).toByteArray) (i := 0) (j := text.utf8ByteSize)
    rw [Nat.add_zero, String.size_toByteArray, ← String.toByteArray_append] at h
    rw [h, String.toByteArray_append, ByteArray.extract_append_eq_left String.size_toByteArray.symm]

namespace Tiles

variable {start stop : Nat} {ts : List Token}

theorem le (h : Tiles start stop ts) : start ≤ stop := by
  induction ts generalizing start with
  | nil => exact Nat.le_of_eq h
  | cons t ts ih =>
    obtain ⟨rfl, hle, hrest⟩ := h
    exact Nat.le_trans hle (ih hrest)

/-- Every token of a tiling lies within its ends. -/
theorem bounds (h : Tiles start stop ts) :
    ∀ t ∈ ts, start ≤ t.start ∧ t.start ≤ t.stop ∧ t.stop ≤ stop := by
  induction ts generalizing start with
  | nil => exact nofun
  | cons t ts ih =>
    obtain ⟨rfl, hle, hrest⟩ := h
    intro s hs
    rcases List.mem_cons.mp hs with rfl | hs
    · exact ⟨Nat.le_refl _, hle, hrest.le⟩
    · obtain ⟨h1, h2⟩ := ih hrest s hs
      exact ⟨Nat.le_trans hle h1, h2⟩

/-- A later token starts where an earlier one ends, or after it. -/
theorem pairwise (h : Tiles start stop ts) : ts.Pairwise fun s t => s.stop ≤ t.start := by
  induction ts generalizing start with
  | nil => exact .nil
  | cons t ts ih =>
    obtain ⟨rfl, -, hrest⟩ := h
    exact List.pairwise_cons.mpr ⟨fun s hs => (hrest.bounds s hs).1, ih hrest⟩

end Tiles

/-! ## Scans -/

namespace Scan

variable (l : Language) (modes : List Mode)

/-- A step takes a front of the text and leaves the rest. -/
theorem ofList_step (c : Char) (cs : List Char) :
    String.ofList (step l modes c cs).taken ++ String.ofList (step l modes c cs).rest =
      String.ofList (c :: cs) := by
  rw [← String.ofList_append, step_append]

theorem scanFrom_cons (start : Nat) (c : Char) (cs : List Char) :
    scanFrom l modes start (c :: cs) =
      ⟨(step l modes c cs).kind, String.ofList (step l modes c cs).taken, start,
          start + (String.ofList (step l modes c cs).taken).utf8ByteSize⟩ ::
        scanFrom l (step l modes c cs).modes
          (start + (String.ofList (step l modes c cs).taken).utf8ByteSize)
          (step l modes c cs).rest := by
  rw [scanFrom]

/-- The tokens of a scan tile the text from its start. -/
theorem tiles_scanFrom (start : Nat) (cs : List Char) :
    Tiles start (start + (String.ofList cs).utf8ByteSize) (scanFrom l modes start cs) := by
  induction modes, cs using step_induction (l := l) generalizing start with
  | nil modes => simp [scanFrom, Tiles]
  | cons modes c cs ih =>
    rw [scanFrom_cons, ← ofList_step l modes, String.utf8ByteSize_append, ← Nat.add_assoc]
    exact ⟨rfl, Nat.le_add_right .., ih _⟩

/-- The tokens of a text behind a front are pieces of both together. -/
theorem pieceOf_scanFrom (front : String) (cs : List Char) :
    ∀ t ∈ scanFrom l modes front.utf8ByteSize cs, t.PieceOf (front ++ String.ofList cs) := by
  induction modes, cs using step_induction (l := l) generalizing front with
  | nil modes => simp [scanFrom]
  | cons modes c cs ih =>
    rw [scanFrom_cons, ← ofList_step l modes, ← String.utf8ByteSize_append]
    intro t ht
    rcases List.mem_cons.mp ht with rfl | ht
    · rw [String.utf8ByteSize_append]
      exact Token.pieceOf_append ..
    · rw [← String.append_assoc]
      exact ih _ t ht

/-- The texts of a scan make up the text. -/
theorem join_scanFrom (start : Nat) (cs : List Char) :
    String.join ((scanFrom l modes start cs).map (·.text)) = String.ofList cs := by
  induction modes, cs using step_induction (l := l) generalizing start with
  | nil modes =>
    rw [scanFrom]
    rfl
  | cons modes c cs ih =>
    rw [scanFrom_cons, List.map_cons, String.join_cons, ih, ofList_step]

/-- A token that is no piece of a literal takes a character. -/
theorem resume_taken_ne_nil {d : Delimiter} {outer : List Mode} {cs : List Char}
    (h : (resume d outer cs).kind ≠ .stringLiteral) : (resume d outer cs).taken ≠ [] := by
  unfold resume at h ⊢
  dsimp only at h ⊢
  split at h
  · rename_i text code hstop
    split
    · exact toList_ne_nil_of_length_pos (literalText_opener hstop).2
    · rename_i hne
      rw [if_neg hne] at h
      exact absurd rfl h
  · exact absurd rfl h

/-- Only a piece of a literal may be empty. -/
theorem step_taken_ne_nil {c : Char} {cs : List Char}
    (h : (step l modes c cs).kind ≠ .stringLiteral) : (step l modes c cs).taken ≠ [] := by
  unfold step at h ⊢
  split at h
  · exact resume_taken_ne_nil h
  · exact codeStep_taken_ne_nil l modes c cs

/-- A token that is no piece of a literal has a byte. -/
theorem start_lt_of_mem_scanFrom (start : Nat) (cs : List Char) :
    ∀ t ∈ scanFrom l modes start cs, t.kind ≠ .stringLiteral → t.start < t.stop := by
  induction modes, cs using step_induction (l := l) generalizing start with
  | nil modes => simp [scanFrom]
  | cons modes c cs ih =>
    rw [scanFrom_cons]
    intro t ht hk
    rcases List.mem_cons.mp ht with rfl | ht
    · have hne := step_taken_ne_nil l modes hk
      have hpos : 0 < (String.ofList (step l modes c cs).taken).utf8ByteSize := by
        rw [Nat.pos_iff_ne_zero, ne_eq, String.utf8ByteSize_eq_zero_iff]
        simpa using hne
      exact Nat.lt_add_of_pos_right hpos
    · exact ih _ t ht hk

end Scan

/-- The tokens of a source tile it.  They follow one another from its first byte to its last, each
is the piece between its offsets, and its offsets stand between characters.  Together the texts are
the source, and only the empty source has no tokens. -/
theorem scan_tiles (l : Language) (source : String) :
    Tiles 0 source.utf8ByteSize (scan l source) ∧
      (∀ t ∈ scan l source, t.PieceOf source) ∧
      String.join ((scan l source).map (·.text)) = source ∧
      (scan l source = [] ↔ source = "") := by
  have htiles := Scan.tiles_scanFrom l [] 0 source.toList
  have hpieces := Scan.pieceOf_scanFrom l [] "" source.toList
  have hjoin := Scan.join_scanFrom l [] 0 source.toList
  rw [String.ofList_toList] at htiles hpieces hjoin
  rw [Nat.zero_add] at htiles
  rw [String.empty_append] at hpieces
  refine ⟨htiles, hpieces, hjoin, fun hnil => ?_, ?_⟩
  · rw [← hjoin]
    rw [scan] at hnil
    rw [hnil]
    rfl
  · rintro rfl
    simp [scan, scanFrom]

/-! ## Significant tokens -/

/-- The tokens that count come in the order of the scan. -/
theorem sublist_lexemesFrom (pending : Bool) (ts : List Token) :
    ((lexemesFrom pending ts).map (·.toToken)).Sublist ts := by
  induction ts generalizing pending with
  | nil => exact .slnil
  | cons t ts ih =>
    simp only [lexemesFrom]
    split
    · exact (ih true).cons t
    split
    · exact (ih pending).cons t
    · exact (ih false).cons_cons t

namespace Code

/-- The tokens of the code lie in the source one after another. -/
structure Laid (code : Code) : Prop where
  /-- A later token starts where an earlier one ends, or after it. -/
  order : code.tokens.Pairwise fun s t => s.stop ≤ t.start
  /-- A token ends in the source. -/
  bounds : ∀ t ∈ code.tokens, t.start ≤ t.stop ∧ t.stop ≤ code.bytes
  /-- A token that is no piece of a literal has a byte. -/
  filled : ∀ t ∈ code.tokens, t.kind ≠ .stringLiteral → t.start < t.stop

/-- The tokens of a source stand one behind another, within its bytes. -/
theorem laid_ofSource (l : Language) (source : String) : (ofSource l source).Laid := by
  have hsub : (ofSource l source).tokens.Sublist (scan l source) := by
    simpa [tokens, ofSource, Cyclomatic.lexemes] using sublist_lexemesFrom false (scan l source)
  have htiles := Scan.tiles_scanFrom l [] 0 source.toList
  rw [String.ofList_toList, Nat.zero_add] at htiles
  constructor
  · exact htiles.pairwise.sublist hsub
  · intro t ht
    exact (htiles.bounds t (hsub.subset ht)).2
  · intro t ht
    exact Scan.start_lt_of_mem_scanFrom l [] 0 source.toList t (hsub.subset ht)

namespace Laid

variable {code : Code} {i j : Nat} {s t : Token}

theorem mem_tokens (h : code.token? i = some t) : t ∈ code.tokens := by
  rw [← tokens_getElem?] at h
  exact List.mem_of_getElem? h

/-- The offset of a token is where it starts. -/
theorem offset_eq (h : code.token? i = some t) : code.offset i = t.start := by
  obtain ⟨x, hx, rfl⟩ := Option.map_eq_some_iff.mp h
  simp [offset, hx]

/-- Past the last token, the offset is the end of the source. -/
theorem offset_of_size_le (h : code.size ≤ i) : code.offset i = code.bytes := by
  simp [offset, Array.getElem?_eq_none h]

theorem exists_token (h : i < code.size) : ∃ t, code.token? i = some t :=
  ⟨_, by rw [token?, Array.getElem?_eq_getElem h]; rfl⟩

/-- An earlier token ends before a later one starts. -/
theorem stop_le (h : code.Laid) (hs : code.token? i = some s) (hij : i < j) :
    s.stop ≤ code.offset j := by
  by_cases hj : j < code.size
  · obtain ⟨t, ht⟩ := exists_token hj
    rw [offset_eq ht]
    rw [← tokens_getElem?] at hs ht
    obtain ⟨hi, rfl⟩ := List.getElem?_eq_some_iff.mp hs
    obtain ⟨hj, rfl⟩ := List.getElem?_eq_some_iff.mp ht
    exact List.pairwise_iff_getElem.mp h.order i j hi hj hij
  · rw [offset_of_size_le (Nat.le_of_not_lt hj)]
    exact (h.bounds s (mem_tokens hs)).2

/-- Offsets do not decrease. -/
theorem offset_le (h : code.Laid) (hij : i ≤ j) : code.offset i ≤ code.offset j := by
  rcases Nat.lt_or_eq_of_le hij with hlt | rfl
  · by_cases hi : i < code.size
    · obtain ⟨s, hs⟩ := exists_token hi
      rw [offset_eq hs]
      exact Nat.le_trans (h.bounds s (mem_tokens hs)).1 (h.stop_le hs hlt)
    · have hbytes := offset_of_size_le (Nat.le_of_not_lt hi)
      exact Nat.le_of_eq (hbytes.trans (offset_of_size_le (by omega)).symm)
  · exact Nat.le_refl _

theorem offset_le_bytes (h : code.Laid) (i : Nat) : code.offset i ≤ code.bytes := by
  have hle := h.offset_le (Nat.le_add_right i code.size)
  rwa [offset_of_size_le (Nat.le_add_left ..)] at hle

/-- A token that is no piece of a literal starts before those after it. -/
theorem offset_lt (h : code.Laid) (hs : code.token? i = some s) (hk : s.kind ≠ .stringLiteral)
    (hij : i < j) : code.offset i < code.offset j := by
  rw [offset_eq hs]
  exact Nat.lt_of_lt_of_le (h.filled s (mem_tokens hs) hk) (h.stop_le hs hij)

/-- A later offset lies on the same line or on a later one. -/
theorem lineAt_le (starts : List Nat) {a b : Nat} (hab : a ≤ b) :
    lineAt starts a ≤ lineAt starts b := by
  refine List.countP_mono_left fun start _ hle => ?_
  simp only [decide_eq_true_eq] at hle ⊢
  exact Nat.le_trans hle hab

theorem lineOf_le (h : code.Laid) (hij : i ≤ j) : code.lineOf i ≤ code.lineOf j :=
  lineAt_le code.starts (h.offset_le hij)

theorem lineOf_le_lastLine (h : code.Laid) (i : Nat) : code.lineOf i ≤ code.lastLine :=
  lineAt_le code.starts (h.offset_le_bytes i)

end Laid

end Code

end Cyclomatic
