import Spreadsheet.Proofs.Formula.Grammar
import Spreadsheet.Proofs.Formula.Marking
import Spreadsheet.Proofs.Location

/-!
# The tokens of a written expression

Each part of the text of an expression is read as the tokens that were meant: no token runs into the
next one, whether or not there are blanks around operators.
-/

namespace Spreadsheet.Formula

open Spreadsheet.Text Spreadsheet.Template

/-- A token without its place. -/
def unplaced (t : Token) : Placed :=
  ⟨t, 0⟩

/-- Whether a text is read as one token wherever an operand can end behind it. -/
def LexesTo (cs : List Char) (t : Token) : Prop :=
  ∀ rest, Stops rest → cellTokens (cs ++ rest) = (cellTokens rest).map (unplaced t :: ·)

/-! ## Single tokens -/

theorem cellTokens_nil : cellTokens [] = some [] := by
  rw [cellTokens]

theorem cellTokens_blank (rest : List Char) : cellTokens (' ' :: rest) = cellTokens rest := by
  rw [cellTokens]
  rfl

theorem cellTokens_of_lexeme {c : Char} {rest : List Char} {t : Token} (cs spelling : List Char)
    (blank : isSpacing c = false) (h : cellLexeme c (cs ++ rest) = .ok ⟨t, spelling, rest⟩) :
    cellTokens (c :: (cs ++ rest)) = (cellTokens rest).map (unplaced t :: ·) := by
  rw [cellTokens, blank, h]
  have shorter : rest.length < (c :: (cs ++ rest)).length := by
    rw [List.length_cons, List.length_append]
    omega
  simp only [Bool.false_eq_true, if_false, dif_pos shorter]
  rfl

theorem sheetPrefix_eq_none {cs rest : List Char} (names : ∀ c ∈ cs, isNameRest c = true)
    (next : ∀ c ∈ rest.head?, isNameRest c = false ∧ c ≠ '!' ∧ c ≠ '\'') :
    sheetPrefix (cs ++ rest) = none := by
  have apostrophe : ∀ tail, cs ++ rest ≠ '\'' :: tail := by
    intro tail same
    cases cs with
    | nil =>
        rw [List.nil_append] at same
        exact (next '\'' (by simp [same])).2.2 rfl
    | cons c cs =>
        obtain ⟨rfl, -⟩ : c = '\'' ∧ cs ++ rest = tail := by simpa using same
        exact absurd (names '\'' (by simp)) (by decide)
  have behind : (cs ++ rest).dropWhile isNameRest = rest := by
    rw [List.dropWhile_append_of_pos names]
    cases rest with
    | nil => rfl
    | cons d rest => simp [(next d rfl).1]
  unfold sheetPrefix sheetSpelling
  split
  · rename_i found
    split at found
    · exact absurd ‹_› (apostrophe _)
    · split at found
      · cases found
      · rw [behind] at found
        cases found
        exact absurd rfl (next '!' rfl).2.1
  · rfl

theorem sheetPrefix_symbol {c : Char} (name : isNameRest c = false) (mark : c ≠ '!')
    (apostrophe : c ≠ '\'') (rest : List Char) : sheetPrefix (c :: rest) = none := by
  refine @sheetPrefix_eq_none [] _ (by simp) ?_
  intro d hd
  cases hd
  exact ⟨name, mark, apostrophe⟩

theorem next_of_stops {rest : List Char} (stops : Stops rest) :
    ∀ c ∈ rest.head?, isNameRest c = false ∧ c ≠ '!' ∧ c ≠ '\'' := by
  intro c hc
  obtain ⟨name, quote, -, mark⟩ := delimiter_facts (stops c hc)
  refine ⟨name, mark, ?_⟩
  rintro rfl
  cases quote

/-- Signs, percent signs, parentheses and separators are tokens by themselves. -/
theorem cellTokens_mark {c : Char} {t : Token}
    (h : (c, t) ∈ [('(', Token.openParen), (')', .closeParen), (',', .comma), ('%', .percent),
      ('-', .operator .sub), ('+', .operator .add)]) (rest : List Char) :
    cellTokens (c :: rest) = (cellTokens rest).map (unplaced t :: ·) := by
  have lexed (c : Char) (t : Token) (blank : isSpacing c = false) (name : isNameRest c = false)
      (mark : c ≠ '!') (apostrophe : c ≠ '\'')
      (own : lexeme c rest = .ok ⟨t, [c], rest⟩) :
      cellTokens (c :: rest) = (cellTokens rest).map (unplaced t :: ·) := by
    refine cellTokens_of_lexeme [] [c] blank ?_
    rw [List.nil_append, cellLexeme, sheetPrefix_symbol name mark apostrophe]
    exact own
  simp only [List.mem_cons, Prod.mk.injEq, List.not_mem_nil, or_false] at h
  rcases h with ⟨rfl, rfl⟩ | ⟨rfl, rfl⟩ | ⟨rfl, rfl⟩ | ⟨rfl, rfl⟩ | ⟨rfl, rfl⟩ | ⟨rfl, rfl⟩ <;>
    exact lexed _ _ rfl rfl (by decide) (by decide) rfl

/-- An operator is read in full when no operator follows it. -/
theorem cellTokens_symbol (op : BinaryOp) {rest : List Char}
    (next : ∀ c ∈ rest.head?, c ≠ '>' ∧ c ≠ '=') :
    cellTokens (op.symbol.toList ++ rest) =
      (cellTokens rest).map (unplaced (.operator op) :: ·) := by
  have lexed (c : Char) (cs : List Char) (blank : isSpacing c = false)
      (name : isNameRest c = false) (mark : c ≠ '!') (apostrophe : c ≠ '\'')
      (own : lexeme c (cs ++ rest) = .ok ⟨.operator op, c :: cs, rest⟩) :
      cellTokens (c :: (cs ++ rest)) = (cellTokens rest).map (unplaced (.operator op) :: ·) := by
    refine cellTokens_of_lexeme cs (c :: cs) blank ?_
    rw [cellLexeme, sheetPrefix_symbol name mark apostrophe]
    exact own
  have less : symbolAt ('<' :: rest) = some (.operator .lt, 1) := by
    cases rest with
    | nil => rfl
    | cons d rest =>
        obtain ⟨greater, equals⟩ := next d rfl
        rw [symbolAt]
        · rintro tail same
          exact greater (List.cons.inj same).1
        · rintro tail same
          exact equals (List.cons.inj same).1
  have greater : symbolAt ('>' :: rest) = some (.operator .gt, 1) := by
    cases rest with
    | nil => rfl
    | cons d rest =>
        rw [symbolAt]
        rintro tail same
        exact (next d rfl).2 (List.cons.inj same).1
  cases op with
  | lt =>
      refine lexed '<' [] rfl rfl (by decide) (by decide) ?_
      have : isNumberChar '<' = false ∧ isNameStart '<' = false := by decide
      simp [lexeme, this, less]
  | gt =>
      refine lexed '>' [] rfl rfl (by decide) (by decide) ?_
      have : isNumberChar '>' = false ∧ isNameStart '>' = false := by decide
      simp [lexeme, this, greater]
  | ne => exact lexed '<' ['>'] rfl rfl (by decide) (by decide) rfl
  | le => exact lexed '<' ['='] rfl rfl (by decide) (by decide) rfl
  | ge => exact lexed '>' ['='] rfl rfl (by decide) (by decide) rfl
  | add => exact lexed '+' [] rfl rfl (by decide) (by decide) rfl
  | sub => exact lexed '-' [] rfl rfl (by decide) (by decide) rfl
  | mul => exact lexed '*' [] rfl rfl (by decide) (by decide) rfl
  | div => exact lexed '/' [] rfl rfl (by decide) (by decide) rfl
  | pow => exact lexed '^' [] rfl rfl (by decide) (by decide) rfl
  | concat => exact lexed '&' [] rfl rfl (by decide) (by decide) rfl
  | eq => exact lexed '=' [] rfl rfl (by decide) (by decide) rfl

theorem not_isSpacing {c : Char} (h : isBlank c = false) : isSpacing c = false := by
  simp only [isSpacing, Bool.or_eq_false_iff, beq_eq_false_iff_ne]
  refine ⟨⟨⟨?_, ?_⟩, ?_⟩, ?_⟩ <;> rintro rfl <;> exact absurd h (by decide)

theorem lexesTo_number {x : Float} {cs : List Char} (nonempty : cs ≠ [])
    (chars : ∀ c ∈ cs, Number.isDecimalChar c = true) (reads : Number.read cs = some x) :
    LexesTo cs (.number x) := by
  intro rest stops
  obtain ⟨c, cs, rfl⟩ := List.exists_cons_of_ne_nil nonempty
  have number : ∀ d ∈ c :: cs, isNumberChar d = true := chars
  have name : ∀ d ∈ c :: cs, isNameRest d = true := by
    intro d hd
    have := chars d hd
    simp only [Number.isDecimalChar, Bool.or_eq_true] at this
    rcases this with h | h
    · simp [isNameRest, Char.isAlphanum, h]
    · simp [isNameRest, h]
  have behind : rest.takeWhile isNumberChar = [] ∧ rest.dropWhile isNumberChar = rest ∧
      exponentSpelling rest = [] := by
    cases rest with
    | nil => exact ⟨rfl, rfl, rfl⟩
    | cons d rest =>
        have other : isNumberChar d = false ∧ d ≠ 'e' ∧ d ≠ 'E' := by
          have none : ∀ d ∈ [')', ',', ' ', '%', '+', '-', '*', '/', '^', '&', '=', '<', '>'],
              isNumberChar d = false ∧ d ≠ 'e' ∧ d ≠ 'E' := forall_mem_of_all (by decide)
          exact none d (by simpa [isDelimiter] using stops d rfl)
        refine ⟨by simp [other.1], by simp [other.1], ?_⟩
        simp [exponentSpelling, other.2]
  have spelling : numberSpelling (c :: cs ++ rest) = c :: cs := by
    rw [numberSpelling, List.takeWhile_append_of_pos number, List.dropWhile_append_of_pos number,
      behind.1, behind.2.1, behind.2.2]
    simp
  have facts := isAtomChar_facts (isAtomChar_of_isNameRest (name c (by simp)))
  have quote : c ≠ '"' := by
    rintro rfl
    cases facts.1
  refine cellTokens_of_lexeme cs (c :: cs) (not_isSpacing facts.2.1) ?_
  rw [cellLexeme, ← List.cons_append, sheetPrefix_eq_none name (next_of_stops stops)]
  simp only [lexeme, ← List.cons_append, spelling, reads]
  simp [quote, number c (by simp)]

theorem literalTail_doubled (body : List Char) {rest : List Char}
    (next : ∀ c ∈ rest.head?, c ≠ '"') :
    literalTail (doubled '"' body ++ '"' :: rest) =
      some (body, doubled '"' body ++ ['"'], rest) := by
  induction body with
  | nil =>
      cases rest with
      | nil => rfl
      | cons c rest =>
          have other := next c rfl
          rw [doubled, List.flatMap_nil, List.nil_append, literalTail]
          · rfl
          · rintro tail - same
            obtain ⟨rfl, -⟩ : c = '"' ∧ rest = tail := by simpa using same
            exact other rfl
  | cons c body ih =>
      rw [doubled_cons]
      by_cases h : c = '"'
      · subst h
        simp [literalTail, ih]
      · rw [if_neg h, List.append_assoc, List.singleton_append, literalTail]
        · simp [h, ih]
        · rintro tail rfl
          simp_all

theorem lexesTo_literal (s : String) : LexesTo (quoteText s).toList (.literal s) := by
  intro rest stops
  have next : ∀ c ∈ rest.head?, c ≠ '"' := by
    rintro c hc rfl
    cases (delimiter_facts (stops '"' hc)).2.1
  rw [toList_quoteText]
  refine cellTokens_of_lexeme _ ('"' :: (doubled '"' s.toList ++ ['"'])) rfl ?_
  rw [cellLexeme, sheetPrefix_symbol rfl (by decide) (by decide)]
  simp [lexeme, literalTail_doubled s.toList next]

/-- A name is read in full in front of a character that it cannot hold. -/
theorem cellTokens_name {cs rest : List Char} (h : IsName cs)
    (next : ∀ c ∈ rest.head?, isNameRest c = false ∧ c ≠ '!' ∧ c ≠ '\'') :
    cellTokens (cs ++ rest) = (cellTokens rest).map (unplaced (.name (String.ofList cs)) :: ·) := by
  obtain ⟨name, c, hc, start⟩ := h
  cases cs with
  | nil => cases hc
  | cons d cs =>
      obtain rfl : d = c := by simpa using hc
      have facts := isAtomChar_facts (isAtomChar_of_isNameRest (name d (by simp)))
      have behind : rest.takeWhile isNameRest = [] ∧ rest.dropWhile isNameRest = rest := by
        cases rest with
        | nil => exact ⟨rfl, rfl⟩
        | cons x rest => simp [(next x rfl).1]
      have quote : d ≠ '"' := by
        rintro rfl
        cases start
      have number : isNumberChar d = false := by
        obtain ⟨k, rfl⟩ := ofNat_toNat_of_isNameRest (isNameRest_of_isNameStart start)
        have all : ∀ k : Fin 128, isNameStart (Char.ofNat k) = true →
            isNumberChar (Char.ofNat k) = false := by decide
        exact all k start
      refine cellTokens_of_lexeme cs (d :: cs) (not_isSpacing facts.2.1) ?_
      rw [cellLexeme, ← List.cons_append, sheetPrefix_eq_none name next]
      simp only [lexeme, quote, number, start]
      rw [← List.cons_append, List.takeWhile_append_of_pos name, List.dropWhile_append_of_pos name,
        behind.1, behind.2]
      simp

/-! ## References -/

theorem quotedSheet_doubled (body : List Char) {rest : List Char}
    (next : ∀ c ∈ rest.head?, c ≠ '\'') :
    quotedSheet (doubled '\'' body ++ '\'' :: rest) =
      some (doubled '\'' body ++ ['\''], rest) := by
  induction body with
  | nil =>
      cases rest with
      | nil => rfl
      | cons c rest =>
          have other := next c rfl
          rw [doubled, List.flatMap_nil, List.nil_append, quotedSheet]
          · rfl
          · rintro tail - same
            obtain ⟨rfl, -⟩ : c = '\'' ∧ rest = tail := by simpa using same
            exact other rfl
  | cons c body ih =>
      rw [doubled_cons]
      by_cases h : c = '\''
      · subst h
        simp [quotedSheet, ih]
      · rw [if_neg h, List.append_assoc, List.singleton_append, quotedSheet]
        · simp [h, ih]
        · rintro tail rfl
          simp_all

theorem isCellName_a1 (l : Location) : isCellName l.a1.toList = true := by
  have spelled := Location.isSpelled_a1 l
  have whole : columnDigits (l.col + 1) ≠ [] := columnDigits_ne_nil (by omega)
  obtain ⟨letters, digits⟩ := Location.span_letters spelled
  rw [isCellName, letters, digits]
  simp [whole, Nat.toDigits_ne_nil]
  exact spelled.digits

theorem sheetPrefix_quoted (name rest : List Char) :
    sheetPrefix ('\'' :: (doubled '\'' name ++ '\'' :: '!' :: rest)) =
      some ('\'' :: (doubled '\'' name ++ ['\'', '!']), rest) := by
  have read := @quotedSheet_doubled name ('!' :: rest) (by simp)
  simp [sheetPrefix, sheetSpelling, read]

theorem sheetPrefix_plain {name : List Char} (chars : ∀ c ∈ name, isNameRest c = true)
    (first : name.head?.any Char.isDigit = false) (rest : List Char) :
    sheetPrefix (name ++ '!' :: rest) = some (name ++ ['!'], rest) := by
  have mark : isNameRest '!' = false := rfl
  have spelled : (name ++ '!' :: rest).takeWhile isNameRest = name := by
    rw [List.takeWhile_append_of_pos chars]
    simp [mark]
  have behind : (name ++ '!' :: rest).dropWhile isNameRest = '!' :: rest := by
    rw [List.dropWhile_append_of_pos chars]
    simp [mark]
  have head : (name ++ '!' :: rest).head?.any Char.isDigit = false := by
    cases name with
    | nil => rfl
    | cons c name => exact first
  have read : sheetSpelling (name ++ '!' :: rest) = some (name, '!' :: rest) := by
    unfold sheetSpelling
    split
    · rename_i tail same
      cases name with
      | nil => simp at same
      | cons c name =>
          obtain ⟨rfl, -⟩ : c = '\'' ∧ name ++ '!' :: rest = tail := by simpa using same
          exact absurd (chars '\'' (by simp)) (by decide)
    · rw [head, spelled, behind]
      rfl
  simp [sheetPrefix, read]

/-- The reference of a cell as it stands in a formula on a sheet: its name alone, or behind the name
of its own sheet. -/
theorem qualified_cases (l : Location) (sheet : String) :
    (l.qualified sheet).toList = l.a1.toList ∨
      ∃ c cs, isBlank c = false ∧
        (∀ rest, sheetPrefix (c :: (cs ++ rest)) = some (c :: cs, rest)) ∧
        (l.qualified sheet).toList = c :: (cs ++ l.a1.toList) := by
  simp only [Location.qualified]
  split
  · exact .inl rfl
  · right
    simp only [quoteSheetName]
    split
    · rename_i plain
      simp only [Bool.and_eq_true, List.all_eq_true, Bool.not_eq_true'] at plain
      have read := sheetPrefix_plain plain.1 plain.2
      cases hname : l.sheet.toList with
      | nil =>
          refine ⟨'!', [], by decide, ?_, by simp [String.toList_append, hname]⟩
          intro rest
          simpa [hname] using read rest
      | cons c cs =>
          rw [hname] at plain read
          refine ⟨c, cs ++ ['!'], ?_, ?_, by simp [String.toList_append, hname]⟩
          · exact (isAtomChar_facts (isAtomChar_of_isNameRest (plain.1 c (by simp)))).2.1
          · intro rest
            simpa using read rest
    · refine ⟨'\'', doubled '\'' l.sheet.toList ++ ['\'', '!'], by decide, ?_, ?_⟩
      · intro rest
        have := sheetPrefix_quoted l.sheet.toList rest
        simpa using this
      · simp [String.toList_append, doubled]

theorem isReference_qualified (l : Location) (sheet : String) :
    isReference (l.qualified sheet).toList = true := by
  rcases qualified_cases l sheet with same | ⟨c, cs, -, read, same⟩
  · have none := @sheetPrefix_eq_none _ [] (isNameRest_a1 l) (by simp)
    rw [List.append_nil] at none
    simp [same, isReference, none, isCellName_a1]
  · simp [same, isReference, read, isCellName_a1]

theorem isName_a1 (l : Location) : IsName l.a1.toList := by
  refine ⟨isNameRest_a1 l, ?_⟩
  rw [a1_toList]
  cases h : columnDigits (l.col + 1) with
  | nil => exact absurd h (columnDigits_ne_nil (by omega))
  | cons c cs =>
      have := isNameRest_columnDigits (l.col + 1) c (by simp [h])
      exact ⟨c, rfl, by simp [isNameStart, this]⟩

theorem lexesTo_qualified (l : Location) (sheet : String) :
    LexesTo (l.qualified sheet).toList (.name (l.qualified sheet)) := by
  intro rest stops
  have next := next_of_stops stops
  have spelling := String.ofList_toList (s := l.qualified sheet)
  rcases qualified_cases l sheet with same | ⟨c, cs, blank, read, same⟩
  · have lexed := cellTokens_name (isName_a1 l) next
    rw [← same, spelling] at lexed
    exact lexed
  · have behind : rest.takeWhile isNameRest = [] ∧ rest.dropWhile isNameRest = rest := by
      cases rest with
      | nil => exact ⟨rfl, rfl⟩
      | cons x rest => simp [(next x rfl).1]
    rw [same] at spelling ⊢
    rw [List.cons_append]
    refine cellTokens_of_lexeme _ (c :: (cs ++ l.a1.toList)) (not_isSpacing blank) ?_
    rw [cellLexeme, List.append_assoc, read]
    simp only [List.takeWhile_append_of_pos (isNameRest_a1 l),
      List.dropWhile_append_of_pos (isNameRest_a1 l), behind.1, behind.2]
    rw [List.append_nil, List.cons_append, spelling]

/-! ## Expressions -/

namespace Spelling

variable (w : Spelling)

mutual

/-- The tokens of an expression. -/
def tokens : Expr → List Token
  | .number x => [.number x]
  | .text s => [.literal s]
  | .bool b => [.name (CellValue.boolText b)]
  | .ref key => [.name (String.ofList (w.reference key))]
  | .index target _ => tokens target
  | .unary .neg operand => .operator .sub :: tokens operand
  | .unary .plus operand => .operator .add :: tokens operand
  | .unary .percent operand => tokens operand ++ [.percent]
  | .binary op lhs rhs => .openParen :: (tokens lhs ++ .operator op :: (tokens rhs ++ [.closeParen]))
  | .call name [] => [.name (String.ofList (w.call name)), .openParen, .closeParen]
  | .call name (arg :: rest) =>
    .name (String.ofList (w.call name)) :: .openParen ::
      (tokens arg ++ (moreTokens rest ++ [.closeParen]))

/-- The tokens of the arguments of a call after the first one. -/
def moreTokens : List Expr → List Token
  | [] => []
  | arg :: rest => .comma :: (tokens arg ++ moreTokens rest)

end

/-- The tokens of an expression that is all of a formula. -/
def outerTokens : Expr → List Token
  | .binary op lhs rhs => w.tokens lhs ++ .operator op :: w.tokens rhs
  | e => w.tokens e

/-- What reading the text of an expression needs to know of every part of it. -/
def Reads : Expr → Prop
  | .number x => LexesTo (Number.literal x).toList (.number x)
  | .ref key => LexesTo (w.reference key) (.name (String.ofList (w.reference key)))
  | _ => True

end Spelling

variable {w : Spelling}

theorem isName_call (hw : w.NamesCalls) {name : String} (h : IsUpperName name.toList) :
    IsName (w.call name) := by
  rcases hw name h with same | marked
  · rw [same]
    exact h.1
  · rw [marked]
    have marker : ∀ c ∈ futureMarker.toList, isNameRest c = true :=
      forall_mem_of_all (by decide)
    refine ⟨?_, '_', rfl, rfl⟩
    intro c hc
    rcases List.mem_append.1 hc with hc | hc
    · exact marker c hc
    · exact h.1.1 c hc

theorem lexesTo_boolText (b : Bool) :
    LexesTo (CellValue.boolText b).toList (.name (CellValue.boolText b)) := by
  intro rest stops
  have name : IsName (CellValue.boolText b).toList := by
    cases b
    · exact ⟨forall_mem_of_all (by decide), 'F', rfl, rfl⟩
    · exact ⟨forall_mem_of_all (by decide), 'T', rfl, rfl⟩
  have lexed := cellTokens_name name (next_of_stops stops)
  rwa [String.ofList_toList] at lexed

theorem map_append_unplaced (ts us : List Token) (read : Option (List Placed)) :
    (read.map (us.map unplaced ++ ·)).map (ts.map unplaced ++ ·) =
      read.map ((ts ++ us).map unplaced ++ ·) := by
  cases read <;> simp

/-- The operator between two operands. -/
theorem cellTokens_operator (op : BinaryOp) {rest : List Char}
    (next : ∀ c ∈ rest.head?, c ≠ '>' ∧ c ≠ '=') :
    cellTokens (w.operator op ++ rest) =
      (cellTokens rest).map (unplaced (.operator op) :: ·) := by
  cases h : w.spacing with
  | false =>
      simp only [Spelling.operator, Spelling.gap, h]
      simpa using cellTokens_symbol op next
  | true =>
      have symbol := @cellTokens_symbol op (' ' :: rest) (by simp)
      simp only [Spelling.operator, Spelling.gap, h, if_true, List.append_assoc,
        List.cons_append, List.nil_append]
      rw [cellTokens_blank, symbol, cellTokens_blank]

theorem text_next (hw : w.NamesCalls) {e : Expr} (h : e.Every w.Covers) (rest : List Char) :
    ∀ c ∈ (w.text e ++ rest).head?, c ≠ '>' ∧ c ≠ '=' := by
  obtain ⟨d, cs, hd, opening⟩ := text_opening hw h
  intro c hc
  obtain rfl : d = c := by simpa [hd] using hc
  constructor
  · rintro rfl
    exact absurd opening (by decide)
  · rintro rfl
    exact absurd opening (by decide)

theorem cellTokens_text (hw : w.NamesCalls) {e : Expr} (h : e.Every w.Covers)
    (reads : e.Every w.Reads) {rest : List Char} (stops : Stops rest) :
    cellTokens (w.text e ++ rest) =
      (cellTokens rest).map ((w.tokens e).map unplaced ++ ·) := by
  have mark (c : Char) (t : Token)
      (h : (c, t) ∈ [('(', Token.openParen), (')', .closeParen), (',', .comma), ('%', .percent),
        ('-', .operator .sub), ('+', .operator .add)] := by simp) (rest : List Char) :
      cellTokens (c :: rest) = (cellTokens rest).map (unplaced t :: ·) :=
    cellTokens_mark h rest
  induction e using Expr.inductionOn generalizing rest with
  | number x => exact reads.self rest stops
  | text s => exact lexesTo_literal s rest stops
  | bool b => exact lexesTo_boolText b rest stops
  | ref key => exact reads.self rest stops
  | index target key => exact h.self.elim
  | unary op operand ih =>
      rw [Expr.every_unary] at h reads
      cases op with
      | neg =>
          rw [Spelling.text, List.cons_append, mark '-' (.operator .sub), ih h.2 reads.2 stops]
          exact map_append_unplaced [.operator .sub] _ _
      | plus =>
          rw [Spelling.text, List.cons_append, mark '+' (.operator .add), ih h.2 reads.2 stops]
          exact map_append_unplaced [.operator .add] _ _
      | percent =>
          rw [Spelling.text, List.append_assoc, List.singleton_append,
            ih h.2 reads.2 (stops_cons rfl), mark '%' .percent]
          exact map_append_unplaced _ [.percent] _
  | binary op lhs rhs ihl ihr =>
      rw [Expr.every_binary] at h reads
      simp only [Spelling.text, List.cons_append, List.append_assoc, List.nil_append]
      rw [mark '(' .openParen, ihl h.2.1 reads.2.1 (stops_operator w op _),
        cellTokens_operator op (text_next hw h.2.2 _), ihr h.2.2 reads.2.2 (stops_cons rfl),
        mark ')' .closeParen]
      simp only [Option.map_map, Spelling.tokens]
      congr 1
      funext ts
      simp [unplaced]
  | call name args ih =>
      rw [Expr.every_call] at h reads
      have named (rest : List Char) := @cellTokens_name _ ('(' :: rest) (isName_call hw h.1)
        (by simp [isNameRest, Char.isAlphanum, Char.isAlpha, Char.isUpper, Char.isLower])
      have more : ∀ rest' : List Expr, (∀ arg ∈ rest', arg ∈ args) → ∀ rest,
          cellTokens (w.moreText rest' ++ ')' :: rest) =
            (cellTokens rest).map ((w.moreTokens rest' ++ [Token.closeParen]).map unplaced ++ ·) := by
        intro rest' hin rest
        induction rest' with
        | nil => exact mark ')' .closeParen (by simp) rest
        | cons arg rest' ihm =>
            have harg := hin arg (by simp)
            simp only [Spelling.moreText, List.cons_append, List.append_assoc]
            rw [mark ',' .comma, cellTokens_blank,
              ih arg harg (h.2 arg harg) (reads.2 arg harg) (stops_moreText w rest' rest),
              ihm fun x hx => hin x (by simp [hx])]
            simp only [Option.map_map, Spelling.moreTokens]
            congr 1
            funext ts
            simp
      cases args with
      | nil =>
          simp only [Spelling.text, List.append_assoc, List.cons_append, List.nil_append]
          rw [named, mark '(' .openParen, mark ')' .closeParen]
          simp only [Option.map_map, Spelling.tokens]
          rfl
      | cons arg args =>
          simp only [Spelling.text, List.append_assoc, List.cons_append, List.nil_append]
          rw [named, mark '(' .openParen, ih arg (by simp) (h.2 arg (by simp))
            (reads.2 arg (by simp)) (stops_moreText w args rest), more args (fun x hx => by simp [hx])]
          simp only [Option.map_map, Spelling.tokens]
          congr 1
          funext ts
          simp

theorem cellTokens_outerText (hw : w.NamesCalls) {e : Expr} (h : e.Every w.Covers)
    (reads : e.Every w.Reads) :
    cellTokens (w.outerText e) = some ((w.outerTokens e).map unplaced) := by
  have whole {e : Expr} (h : e.Every w.Covers) (reads : e.Every w.Reads) :
      cellTokens (w.text e) = some ((w.tokens e).map unplaced) := by
    simpa [cellTokens_nil] using cellTokens_text hw h reads stops_nil
  cases e with
  | binary op lhs rhs =>
      rw [Expr.every_binary] at h reads
      simp only [Spelling.outerText, List.append_assoc]
      have next := text_next hw h.2.2 []
      rw [List.append_nil] at next
      rw [cellTokens_text hw h.2.1 reads.2.1 (stops_operator w op _),
        cellTokens_operator op next, whole h.2.2 reads.2.2]
      simp [Spelling.outerTokens]
  | _ => exact whole h reads

end Spreadsheet.Formula
