import Spreadsheet.Proofs.Formula.Compiled
import Spreadsheet.Proofs.Formula.Pointing
import Spreadsheet.Proofs.Layout.Ranges

/-!
# From one cell to another

What is written for the block from one placed cell to another names the sheet of the first cell only.
It is read as a block of that sheet between the places of the two cells, whichever of them comes first.
So the block always has the first cell in it, and the second one exactly if both are on one sheet.
-/

namespace Spreadsheet

open Formula Template Text

/-! ## The block between two places -/

/-- Whether a place is in the block with two given corners, on the sheet of the first of them. -/
def Location.Spanned (l : Location) (corners : Location × Location) : Prop :=
  l.Between
    ⟨corners.1.sheet, min corners.1.row corners.2.row, min corners.1.col corners.2.col⟩
    ⟨corners.1.sheet, max corners.1.row corners.2.row, max corners.1.col corners.2.col⟩

theorem Location.spanned_first (first last : Location) : first.Spanned (first, last) :=
  ⟨rfl, min_le_left .., le_max_left .., min_le_left .., le_max_left ..⟩

theorem Location.spanned_last_iff {first last : Location} :
    last.Spanned (first, { last with sheet := first.sheet }) ↔ last.sheet = first.sheet :=
  ⟨fun h => h.1, fun same =>
    ⟨same, min_le_right .., le_max_right .., min_le_right .., le_max_right ..⟩⟩

/-- Whether a text that stands in a formula on a sheet refers to a block in which a place is. -/
def RefersTo (sheet text : String) (l : Location) : Prop :=
  ∃ corners, readSpan sheet text = some corners ∧ l.Spanned corners

theorem refersTo_spanText_iff (sheet : String) {first last : Location} (l : Location)
    (bounded : ∀ l ∈ [first, last], l.row + 1 < coordinateBound ∧ l.col + 1 < coordinateBound) :
    RefersTo sheet (spanText sheet first last) l ↔
      l.Spanned (first, { last with sheet := first.sheet }) := by
  unfold RefersTo
  rw [readSpan_spanText_corners sheet bounded]
  simp

/-! ## Text that needs no cleaning up -/

/-- Whether a character can stand in the text of a block outside quotes. -/
def IsSpanChar (c : Char) : Prop :=
  isAtomChar c = true ∨ c = ':'

theorem IsSpanChar.isNeutral {c : Char} (h : IsSpanChar c) : IsNeutral c := by
  rcases h with atom | rfl
  · exact isNeutral_of_isAtomChar atom
  · exact ⟨by decide, by decide, by decide, by decide⟩

theorem IsSpanChar.not_isBlank {c : Char} (h : IsSpanChar c) : isBlank c = false := by
  rcases h with atom | rfl
  · exact (isAtomChar_facts atom).2.1
  · decide

/-- The text of a block: characters that no pass looks at, maybe behind the name of a sheet in quotes. -/
inductive SpanShape : List Char → Prop
  | plain {cs : List Char} (nonempty : cs ≠ []) (chars : ∀ c ∈ cs, IsSpanChar c) : SpanShape cs
  | quoted {q : Char} (body : List Char) {tail : List Char} (quote : isQuoteMark q = true)
      (nonempty : tail ≠ []) (chars : ∀ c ∈ tail, IsSpanChar c) :
      SpanShape (q :: (doubled q body ++ q :: tail))

theorem isSpanChar_a1 (l : Location) : ∀ c ∈ l.a1.toList, IsSpanChar c :=
  fun c hc => .inl (isAtomChar_of_isNameRest (isNameRest_a1 l c hc))

theorem spanShape_qualified (l : Location) (sheet : String) : SpanShape (l.qualified sheet).toList := by
  unfold Location.qualified
  split
  case isTrue => exact .plain (a1_ne_nil l) (isSpanChar_a1 l)
  case isFalse =>
    have behind : ∀ c ∈ '!' :: l.a1.toList, IsSpanChar c := by
      intro c hc
      rcases List.mem_cons.1 hc with rfl | hc
      · exact .inl (by decide)
      · exact isSpanChar_a1 l c hc
    simp only [quoteSheetName]
    split
    case isTrue plain =>
      simp only [Bool.and_eq_true, List.all_eq_true] at plain
      rw [String.toList_append, String.toList_append, List.append_assoc]
      refine .plain (by simp) fun c hc => ?_
      rcases List.mem_append.1 hc with name | hc
      · exact .inl (isAtomChar_of_isNameRest (plain.1 c name))
      · exact behind c hc
    case isFalse =>
      have shape := SpanShape.quoted (q := '\'') l.sheet.toList rfl (List.cons_ne_nil _ _) behind
      simpa [String.toList_append, doubled] using shape

theorem SpanShape.append {cs : List Char} (h : SpanShape cs) {more : List Char}
    (chars : ∀ c ∈ more, IsSpanChar c) : SpanShape (cs ++ more) := by
  have all : ∀ {front : List Char}, (∀ c ∈ front, IsSpanChar c) →
      ∀ c ∈ front ++ more, IsSpanChar c := by
    intro front first c hc
    exact (List.mem_append.1 hc).elim (first c) (chars c)
  cases h with
  | plain nonempty first => exact .plain (by simp [nonempty]) (all first)
  | @quoted q body tail quote nonempty first =>
      rw [List.cons_append, List.append_assoc, List.cons_append]
      exact .quoted body quote (by simp [nonempty]) (all first)

theorem spanShape_spanText (sheet : String) (first last : Location) :
    SpanShape (spanText sheet first last).toList := by
  unfold spanText
  split
  case isTrue => exact spanShape_qualified first sheet
  case isFalse =>
    rw [String.toList_append, String.toList_append, List.append_assoc]
    refine (spanShape_qualified first sheet).append fun c hc => ?_
    rcases List.mem_append.1 hc with colon | name
    · exact .inr (by simpa using colon)
    · exact isSpanChar_a1 last c name

/-- A text that begins with no parenthesis and with no blank at either end is its own trimmed text. -/
theorem SpanShape.stripOuterParens {cs : List Char} (h : SpanShape cs) :
    stripOuterParens cs = cs := by
  have ends : (∃ c rest, cs = c :: rest ∧ isBlank c = false ∧ c ≠ '(') ∧
      ∃ front c, cs = front ++ [c] ∧ isBlank c = false := by
    cases h with
    | plain nonempty chars =>
        obtain ⟨c, rest, rfl⟩ := List.exists_cons_of_ne_nil nonempty
        have first := chars c (by simp)
        exact ⟨⟨c, rest, rfl, first.not_isBlank, first.isNeutral.2.1⟩, _, _,
          (List.dropLast_concat_getLast nonempty).symm,
          (chars _ (List.getLast_mem nonempty)).not_isBlank⟩
    | @quoted q body tail quote nonempty chars =>
        refine ⟨⟨q, _, rfl, not_isBlank_of_isQuoteMark quote, ?_⟩,
          q :: (doubled q body ++ q :: tail.dropLast), tail.getLast nonempty, ?_,
          (chars _ (List.getLast_mem nonempty)).not_isBlank⟩
        · rintro rfl
          cases quote
        · simp [List.dropLast_concat_getLast]
  obtain ⟨⟨c, rest, begins, blank, paren⟩, last⟩ := ends
  have whole : trim cs = cs := trim_eq_self ⟨c, rest, begins, blank⟩ last
  have closed : ¬cs.head? = some '(' := by
    rw [begins]
    simpa using paren
  simp only [Formula.stripOuterParens, whole]
  rw [if_neg fun h => closed h.1]

theorem SpanShape.collapseSeparators {cs : List Char} (h : SpanShape cs) :
    collapseSeparators cs = cs := by
  have copied : ∀ {tail : List Char}, (∀ c ∈ tail, IsSpanChar c) →
      collapseFrom none false tail = tail := by
    intro tail chars
    simpa [collapseFrom] using collapseFrom_neutral (fun c hc => (chars c hc).isNeutral) []
  rw [collapseSeparators_eq_scan]
  cases h with
  | plain nonempty chars => exact copied chars
  | quoted body quote nonempty chars =>
      rw [collapseFrom, if_pos quote, collapseFrom_doubled quote, collapseFrom, if_pos rfl,
        copied chars]

/-- Without a parenthesis there is no call to be marked. -/
theorem markFrom_neutral (known : String → Bool) {cs : List Char} (h : ∀ c ∈ cs, IsNeutral c)
    (before : Option Char) : markFrom known none before false cs = cs := by
  induction cs generalizing before with
  | nil => rfl
  | cons c cs ih =>
      have noCall : callName (c :: cs) = none := by
        unfold callName
        refine if_neg fun opens => ?_
        simp only [Bool.and_eq_true, beq_iff_eq] at opens
        have paren := (List.dropWhile_sublist isNameRest).subset (List.mem_of_mem_head? opens.2)
        exact (h '(' (List.mem_cons_of_mem c paren)).2.1 rfl
      have rest := ih (fun d hd => h d (List.mem_cons_of_mem c hd)) (some c)
      simp [markFrom, (h c (by simp)).1, noCall, rest]

theorem SpanShape.markFutureFunctions (known : String → Bool) {cs : List Char} (h : SpanShape cs) :
    markFutureFunctions known cs = cs := by
  rw [markFutureFunctions_eq_scan]
  cases h with
  | plain nonempty chars => exact markFrom_neutral known (fun c hc => (chars c hc).isNeutral) none
  | quoted body quote nonempty chars =>
      rw [markFrom, if_pos quote, markFrom_doubled known quote, markFrom, if_pos rfl,
        markFrom_neutral known fun c hc => (chars c hc).isNeutral]

/-! ## Writing a block -/

namespace BuildM

variable {b : Build} {c d : CellId} {first last : Location}

/-- At every depth to which formulas are written, a block between placed cells is written as such. -/
theorem runs_renderAt_span (hc : (b.store.cell c).location = some first)
    (hd : (b.store.cell d).location = some last) (cellText : Nat → CellId → BuildM String)
    (sheet : String) {depth : Nat} (shallow : depth ≤ inlineLimit) :
    Runs (renderAt cellText sheet depth (.span c d)) b (spanText sheet first last) b := by
  have checked : Runs (checkDepth depth) b () b := by
    unfold checkDepth
    rw [if_neg (Nat.not_lt.2 shallow)]
    exact runs_pure.2 ⟨rfl, rfl⟩
  rw [renderAt]
  refine runs_bind.2 ⟨(), b, checked, runs_bind.2 ⟨b, b, runs_get.2 ⟨rfl, rfl⟩, ?_⟩⟩
  simp only [hc, hd]
  exact runs_pure.2 ⟨rfl, rfl⟩

/-- The passes leave the text of a block as it is. -/
theorem runs_formulaText_span (hc : (b.store.cell c).location = some first)
    (hd : (b.store.cell d).location = some last) (sheet : String) :
    Runs (formulaText sheet (.span c d)) b ("=" ++ spanText sheet first last) b := by
  have shape := spanShape_spanText sheet first last
  refine runs_bind.2 ⟨_, b, runs_renderAt_span hc hd _ sheet (Nat.zero_le _), runs_pure.2 ⟨?_, rfl⟩⟩
  rw [shape.stripOuterParens, shape.collapseSeparators, shape.markFutureFunctions]
  apply String.toList_injective
  simp [String.toList_append]

/-- The text written for the block from one placed cell to another, in a formula on any sheet, refers to
a block with the first cell in it, and with the second one exactly if they are on one sheet. -/
theorem span_refersTo (hc : (b.store.cell c).location = some first)
    (hd : (b.store.cell d).location = some last)
    (bounded : ∀ l ∈ [first, last], l.row + 1 < coordinateBound ∧ l.col + 1 < coordinateBound)
    (sheet : String) :
    ∃ text, (∀ cellText depth, depth ≤ inlineLimit →
        Runs (renderAt cellText sheet depth (.span c d)) b text b) ∧
      Runs (formulaText sheet (.span c d)) b ("=" ++ text) b ∧
      RefersTo sheet text first ∧ (RefersTo sheet text last ↔ last.sheet = first.sheet) := by
  refine ⟨spanText sheet first last, fun cellText depth shallow => ?_, ?_, ?_, ?_⟩
  · exact runs_renderAt_span hc hd cellText sheet shallow
  · exact runs_formulaText_span hc hd sheet
  · rw [refersTo_spanText_iff sheet first bounded]
    exact Location.spanned_first first _
  · rw [refersTo_spanText_iff sheet last bounded]
    exact Location.spanned_last_iff

end BuildM

/-! ## Two sheets -/

/-- Three cells, the last of them on a sheet of its own. -/
def Build.threePlaces : Build where
  store :=
    { cells := ⟨#[{ value := .text "a", location := some ⟨"It's due", 4, 2⟩ },
        { value := .text "b", location := some ⟨"It's due", 1, 3⟩ },
        { value := .text "c", location := some ⟨"Sales", 1, 1⟩ }]⟩ }

theorem BuildM.span_refersTo_upwards :
    (Build.threePlaces.store.cell ⟨0⟩).location = some ⟨"It's due", 4, 2⟩ ∧
      (Build.threePlaces.store.cell ⟨1⟩).location = some ⟨"It's due", 1, 3⟩ ∧
      ∃ text, (∀ cellText depth, depth ≤ inlineLimit →
          Runs (renderAt cellText "Sales" depth (.span ⟨0⟩ ⟨1⟩)) Build.threePlaces text
            Build.threePlaces) ∧
        Runs (formulaText "Sales" (.span ⟨0⟩ ⟨1⟩)) Build.threePlaces ("=" ++ text)
          Build.threePlaces ∧
        RefersTo "Sales" text ⟨"It's due", 4, 2⟩ ∧
        (RefersTo "Sales" text ⟨"It's due", 1, 3⟩ ↔ "It's due" = "It's due") :=
  ⟨rfl, rfl, span_refersTo rfl rfl (by decide) "Sales"⟩

/-- From a cell of one sheet to a cell of another, a block of the first sheet is written, and nothing
fails. -/
theorem BuildM.span_across_sheets :
    (Build.threePlaces.store.cell ⟨0⟩).location = some ⟨"It's due", 4, 2⟩ ∧
      (Build.threePlaces.store.cell ⟨2⟩).location = some ⟨"Sales", 1, 1⟩ ∧
      Runs (formulaText "Sales" (.span ⟨0⟩ ⟨2⟩)) Build.threePlaces "='It''s due'!C5:B2"
        Build.threePlaces ∧
      ¬RefersTo "Sales" "'It''s due'!C5:B2" ⟨"Sales", 1, 1⟩ := by
  have text : spanText "Sales" ⟨"It's due", 4, 2⟩ ⟨"Sales", 1, 1⟩ = "'It''s due'!C5:B2" := by
    decide +kernel
  have runs := runs_formulaText_span (b := Build.threePlaces) (c := ⟨0⟩) (d := ⟨2⟩) rfl rfl "Sales"
  refine ⟨rfl, rfl, ?_, ?_⟩
  · rw [text] at runs
    exact runs
  · rw [← text, refersTo_spanText_iff "Sales" _ (by decide)]
    exact fun inside => absurd inside.1 (by decide)

end Spreadsheet
