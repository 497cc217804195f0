import Spreadsheet.Proofs.Formula.Spelling

/-!
# Cleaning up the spelling of an expression

What the passes do to the text of an expression.  Removing outer parentheses takes away those of an
operation with two operands and no others, no separator is ever left dangling, and the only names
that get a marker are those of calls.
-/

namespace Spreadsheet.Formula

open Spreadsheet.Text Spreadsheet.Template

variable {w : Spelling}

/-! ## Characters of no meaning to a pass -/

/-- Whether a character is neither a quote mark nor a parenthesis nor a separator. -/
def IsNeutral (c : Char) : Prop :=
  isQuoteMark c = false ∧ c ≠ '(' ∧ c ≠ ')' ∧ c ≠ ','

theorem isNeutral_of_isAtomChar {c : Char} (h : isAtomChar c = true) : IsNeutral c := by
  obtain ⟨quote, -, opening, closing, comma⟩ := isAtomChar_facts h
  exact ⟨quote, opening, closing, comma⟩

theorem isNeutral_operator (w : Spelling) (op : BinaryOp) : ∀ c ∈ w.operator op, IsNeutral c := by
  have gap : ∀ c ∈ w.gap, IsNeutral c := by
    cases h : w.spacing <;> simp [Spelling.gap, h, IsNeutral, isQuoteMark]
  have symbol : ∀ c ∈ op.symbol.toList, IsNeutral c := by
    cases op <;> simp [BinaryOp.symbol, IsNeutral, isQuoteMark]
  simp only [Spelling.operator, List.mem_append]
  rintro c ((hc | hc) | hc)
  · exact gap c hc
  · exact symbol c hc
  · exact gap c hc

theorem isNeutral_call (hw : w.NamesCalls) {name : String} (h : IsUpperName name.toList) :
    ∀ c ∈ w.call name, IsNeutral c := by
  have chars : ∀ c ∈ name.toList, IsNeutral c :=
    fun c hc => isNeutral_of_isAtomChar (isAtomChar_of_isNameRest (h.1.1 c hc))
  have marker : ∀ c ∈ futureMarker.toList, IsNeutral c := by
    simp [futureMarker, IsNeutral, isQuoteMark]
  intro c hc
  rcases hw name h with same | marked
  · exact chars c (same ▸ hc)
  · rw [marked, List.mem_append] at hc
    rcases hc with hc | hc
    · exact marker c hc
    · exact chars c hc

/-! ## Parentheses -/

theorem closesEarly_neutral {cs : List Char} (h : ∀ c ∈ cs, IsNeutral c) (depth : Nat)
    (rest : List Char) : closesEarly none depth (cs ++ rest) = closesEarly none depth rest := by
  induction cs with
  | nil => rfl
  | cons c cs ih =>
      obtain ⟨quote, opening, closing, -⟩ := h c (by simp)
      simp [closesEarly, quote, opening, closing, ih fun d hd => h d (by simp [hd])]

theorem closesEarly_doubled {q : Char} (hq : isQuoteMark q = true) (body : List Char) (depth : Nat)
    (rest : List Char) :
    closesEarly (some q) depth (doubled q body ++ rest) = closesEarly (some q) depth rest := by
  induction body with
  | nil => rfl
  | cons c body ih =>
      rw [doubled_cons, List.append_assoc]
      by_cases h : c = q
      · subst h
        simpa [closesEarly, hq] using ih
      · simpa [closesEarly, h] using ih

theorem closesEarly_atom {cs : List Char} (h : Atom cs) (depth : Nat) (rest : List Char) :
    closesEarly none depth (cs ++ rest) = closesEarly none depth rest := by
  cases h with
  | plain nonempty chars =>
      exact closesEarly_neutral (fun c hc => isNeutral_of_isAtomChar (chars c hc)) depth rest
  | @quoted q body tail quote chars =>
      have level := closesEarly_neutral (fun c hc => isNeutral_of_isAtomChar (chars c hc)) depth rest
      simp only [List.cons_append, List.append_assoc, closesEarly, quote, if_true]
      rw [closesEarly_doubled quote, closesEarly, if_pos rfl, level]

theorem closesEarly_open (depth : Nat) (rest : List Char) :
    closesEarly none depth ('(' :: rest) = closesEarly none (depth + 1) rest := by
  simp [closesEarly, isQuoteMark]

theorem closesEarly_close (depth : Nat) (rest : List Char) :
    closesEarly none (depth + 2) (')' :: rest) = closesEarly none (depth + 1) rest := by
  simp [closesEarly, isQuoteMark]

/-- Inside a parenthesis the text of an expression comes back to the depth at which it starts, and
never below. -/
theorem closesEarly_text (hw : w.NamesCalls) {e : Expr} (h : e.Every w.Covers) (depth : Nat)
    (rest : List Char) :
    closesEarly none (depth + 1) (w.text e ++ rest) = closesEarly none (depth + 1) rest := by
  induction e using Expr.inductionOn generalizing depth rest with
  | number x => exact closesEarly_atom h.self _ _
  | text s => exact closesEarly_atom (atom_quoteText s) _ _
  | bool b => exact closesEarly_atom (atom_boolText b) _ _
  | ref key => exact closesEarly_atom h.self _ _
  | index target key => exact h.self.elim
  | unary op operand ih =>
      rw [Expr.every_unary] at h
      have sign (c : Char) (hc : IsNeutral c) (rest : List Char) :
          closesEarly none (depth + 1) (c :: rest) = closesEarly none (depth + 1) rest :=
        @closesEarly_neutral [c] (by simpa using hc) _ _
      cases op with
      | neg =>
          rw [Spelling.text, List.cons_append, sign '-' (by simp [IsNeutral, isQuoteMark]), ih h.2]
      | plus =>
          rw [Spelling.text, List.cons_append, sign '+' (by simp [IsNeutral, isQuoteMark]), ih h.2]
      | percent =>
          rw [Spelling.text, List.append_assoc, ih h.2]
          exact sign '%' (by simp [IsNeutral, isQuoteMark]) _
  | binary op lhs rhs ihl ihr =>
      rw [Expr.every_binary] at h
      rw [Spelling.text, List.cons_append, closesEarly_open]
      simp only [List.append_assoc]
      rw [ihl h.2.1, closesEarly_neutral (isNeutral_operator w op), ihr h.2.2]
      exact closesEarly_close _ _
  | call name args ih =>
      rw [Expr.every_call] at h
      have level := isNeutral_call hw h.1
      have more : ∀ rest' : List Expr, (∀ arg ∈ rest', arg ∈ args) → ∀ rest,
          closesEarly none (depth + 2) (w.moreText rest' ++ rest) =
            closesEarly none (depth + 2) rest := by
        intro rest' hin rest
        induction rest' with
        | nil => rfl
        | cons arg rest' ihm =>
            have separator (cs : List Char) :
                closesEarly none (depth + 2) (',' :: ' ' :: cs) = closesEarly none (depth + 2) cs := by
              simp [closesEarly, isQuoteMark]
            have harg := hin arg (by simp)
            rw [Spelling.moreText, List.cons_append, List.cons_append, separator,
              List.append_assoc, ih arg harg (h.2 arg harg)]
            exact ihm fun x hx => hin x (by simp [hx])
      cases args with
      | nil =>
          rw [Spelling.text, List.append_assoc, closesEarly_neutral level]
          simp only [List.cons_append, List.nil_append]
          rw [closesEarly_open, closesEarly_close]
      | cons arg args =>
          rw [Spelling.text, List.append_assoc, closesEarly_neutral level]
          simp only [List.cons_append, List.append_assoc]
          rw [closesEarly_open, ih arg (by simp) (h.2 arg (by simp)),
            more args (fun x hx => by simp [hx])]
          exact closesEarly_close _ _

theorem trim_eq_self {cs : List Char} (first : ∃ c rest, cs = c :: rest ∧ isBlank c = false)
    (last : ∃ front c, cs = front ++ [c] ∧ isBlank c = false) : trim cs = cs := by
  have start : trimStart cs = cs := by
    obtain ⟨c, rest, rfl, blank⟩ := first
    simp [trimStart, blank]
  obtain ⟨front, d, hd, blank⟩ := last
  rw [trim, start, hd]
  simp [trimEnd, blank]

theorem trim_text (hw : w.NamesCalls) {e : Expr} (h : e.Every w.Covers) :
    trim (w.text e) = w.text e := by
  obtain ⟨c, rest, hc, opening⟩ := text_opening hw h
  obtain ⟨front, d, hd, closing⟩ := text_closing h
  exact trim_eq_self ⟨c, rest, hc, (isOpening_facts opening).1⟩
    ⟨front, d, hd, isClosing_facts closing⟩

theorem trim_operation (hw : w.NamesCalls) (op : BinaryOp) {lhs rhs : Expr}
    (hl : lhs.Every w.Covers) (hr : rhs.Every w.Covers) :
    trim (w.text lhs ++ w.operator op ++ w.text rhs) =
      w.text lhs ++ w.operator op ++ w.text rhs := by
  obtain ⟨c, rest, hc, opening⟩ := text_opening hw hl
  obtain ⟨front, d, hd, closing⟩ := text_closing hr
  refine trim_eq_self ⟨c, rest ++ w.operator op ++ w.text rhs, by simp [hc],
    (isOpening_facts opening).1⟩ ⟨w.text lhs ++ w.operator op ++ front, d, by simp [hd],
    isClosing_facts closing⟩

/-- Whether an expression is an operation or a call. -/
def IsCompound : Expr → Prop
  | .unary .. | .binary .. | .call .. => True
  | _ => False

instance : DecidablePred IsCompound
  | .unary _ _ | .binary _ _ _ | .call _ _ => .isTrue trivial
  | .number _ | .text _ | .bool _ | .ref _ | .index _ _ => .isFalse id

/-- Only the parentheses of an operation with two operands enclose all of a text. -/
theorem stripOuterParens_text (hw : w.NamesCalls) {e : Expr} (h : e.Every w.Covers)
    (compound : IsCompound e) : stripOuterParens (w.text e) = w.outerText e := by
  have whole := trim_text hw h
  have kept {cs : List Char} (same : trim cs = cs)
      (ends : ¬(cs.head? = some '(' ∧ cs.getLast? = some ')')) : stripOuterParens cs = cs := by
    simp only [stripOuterParens, same]
    rw [if_neg fun both => ends ⟨both.1, both.2.1⟩]
  cases e with
  | unary op operand =>
      refine kept whole ?_
      cases op <;> simp [Spelling.text]
  | call name args =>
      refine kept whole ?_
      obtain ⟨c, rest, hc, start⟩ := hw.opening h.self
      have head : c ≠ '(' := by
        rintro rfl
        cases start
      cases args <;> simp [Spelling.text, hc, head]
  | binary op lhs rhs =>
      rw [Expr.every_binary] at h
      have inside := trim_operation hw op h.2.1 h.2.2
      have level : closesEarly none 0 (w.text (.binary op lhs rhs)) = false := by
        rw [Spelling.text, closesEarly_open]
        simp only [List.append_assoc]
        rw [closesEarly_text hw h.2.1, closesEarly_neutral (isNeutral_operator w op),
          closesEarly_text hw h.2.2]
        simp [closesEarly, isQuoteMark]
      have last : (w.text (.binary op lhs rhs)).getLast? = some ')' := by
        rw [Spelling.text, ← List.cons_append, List.getLast?_concat]
      simp only [stripOuterParens, whole]
      rw [if_pos ⟨by simp [Spelling.text], last, level⟩]
      rw [Spelling.outerText, Spelling.text, List.drop_succ_cons, List.drop_zero,
        List.dropLast_concat, inside]
  | _ => exact compound.elim

/-! ## Separators -/

theorem collapseFrom_cons {c : Char} (quote : isQuoteMark c = false) (comma : c ≠ ',')
    (rest : List Char) : collapseFrom none false (c :: rest) = c :: collapseFrom none false rest := by
  simp [collapseFrom, quote, comma]

theorem collapseFrom_neutral {cs : List Char} (h : ∀ c ∈ cs, IsNeutral c) (rest : List Char) :
    collapseFrom none false (cs ++ rest) = cs ++ collapseFrom none false rest := by
  induction cs with
  | nil => rfl
  | cons c cs ih =>
      obtain ⟨quote, -, -, comma⟩ := h c (by simp)
      rw [List.cons_append, collapseFrom_cons quote comma, ih fun d hd => h d (by simp [hd]),
        List.cons_append]

theorem collapseFrom_doubled {q : Char} (hq : isQuoteMark q = true) (body rest : List Char) :
    collapseFrom (some q) false (doubled q body ++ rest) =
      doubled q body ++ collapseFrom (some q) false rest := by
  induction body with
  | nil => rfl
  | cons c body ih =>
      rw [doubled_cons, List.append_assoc]
      by_cases h : c = q
      · subst h
        simpa [collapseFrom, hq] using ih
      · simpa [collapseFrom, h] using ih

theorem collapseFrom_atom {cs : List Char} (h : Atom cs) (rest : List Char) :
    collapseFrom none false (cs ++ rest) = cs ++ collapseFrom none false rest := by
  cases h with
  | plain nonempty chars =>
      exact collapseFrom_neutral (fun c hc => isNeutral_of_isAtomChar (chars c hc)) rest
  | @quoted q body tail quote chars =>
      have copied := collapseFrom_neutral (fun c hc => isNeutral_of_isAtomChar (chars c hc)) rest
      simp only [List.cons_append, List.append_assoc, collapseFrom, quote, if_true]
      rw [collapseFrom_doubled quote, collapseFrom, if_pos rfl, copied]

/-- Every separator has an argument behind it. -/
theorem collapseFrom_separator (hw : w.NamesCalls) {arg : Expr} (h : arg.Every w.Covers)
    (rest : List Char) :
    collapseFrom none false (',' :: ' ' :: (w.text arg ++ rest)) =
      ',' :: ' ' :: collapseFrom none false (w.text arg ++ rest) := by
  obtain ⟨c, cs, hc, opening⟩ := text_opening hw h
  obtain ⟨blank, paren⟩ := isOpening_facts opening
  have next : closesNext (' ' :: (w.text arg ++ rest)) = false := by
    have space : isBlank ' ' = true := by decide
    rw [closesNext_cons, space, hc, List.cons_append, if_pos rfl, closesNext_cons, blank]
    simpa using paren
  rw [collapseFrom]
  simp only [isQuoteMark, next]
  simp [collapseFrom, isQuoteMark]

/-- No separator in the text of an expression is dangling. -/
theorem collapseFrom_text (hw : w.NamesCalls) {e : Expr} (h : e.Every w.Covers)
    (rest : List Char) :
    collapseFrom none false (w.text e ++ rest) = w.text e ++ collapseFrom none false rest := by
  have copied (c : Char) (quote : isQuoteMark c = false := by rfl)
      (comma : c ≠ ',' := by decide) (rest : List Char) :
      collapseFrom none false (c :: rest) = c :: collapseFrom none false rest :=
    collapseFrom_cons quote comma rest
  induction e using Expr.inductionOn generalizing rest with
  | number x => exact collapseFrom_atom h.self _
  | text s => exact collapseFrom_atom (atom_quoteText s) _
  | bool b => exact collapseFrom_atom (atom_boolText b) _
  | ref key => exact collapseFrom_atom h.self _
  | index target key => exact h.self.elim
  | unary op operand ih =>
      rw [Expr.every_unary] at h
      cases op with
      | neg => rw [Spelling.text, List.cons_append, copied '-', ih h.2, List.cons_append]
      | plus => rw [Spelling.text, List.cons_append, copied '+', ih h.2, List.cons_append]
      | percent =>
          rw [Spelling.text, List.append_assoc, ih h.2, List.singleton_append, copied '%',
            List.append_assoc, List.singleton_append]
  | binary op lhs rhs ihl ihr =>
      rw [Expr.every_binary] at h
      simp only [Spelling.text, List.cons_append, List.append_assoc, List.nil_append]
      rw [copied '(', ihl h.2.1, collapseFrom_neutral (isNeutral_operator w op), ihr h.2.2,
        copied ')']
  | call name args ih =>
      rw [Expr.every_call] at h
      have callName := collapseFrom_neutral (isNeutral_call hw h.1)
      have more : ∀ rest' : List Expr, (∀ arg ∈ rest', arg ∈ args) → ∀ rest,
          collapseFrom none false (w.moreText rest' ++ rest) =
            w.moreText rest' ++ collapseFrom none false rest := by
        intro rest' hin rest
        induction rest' with
        | nil => rfl
        | cons arg rest' ihm =>
            have harg := hin arg (by simp)
            simp only [Spelling.moreText, List.cons_append, List.append_assoc]
            rw [collapseFrom_separator hw (h.2 arg harg), ih arg harg (h.2 arg harg),
              ihm fun x hx => hin x (by simp [hx])]
      cases args with
      | nil =>
          simp only [Spelling.text, List.append_assoc, List.cons_append, List.nil_append]
          rw [callName, copied '(', copied ')']
      | cons arg args =>
          simp only [Spelling.text, List.append_assoc, List.cons_append, List.nil_append]
          rw [callName, copied '(', ih arg (by simp) (h.2 arg (by simp)),
            more args (fun x hx => by simp [hx]), copied ')']

theorem collapseSeparators_outerText (hw : w.NamesCalls) {e : Expr} (h : e.Every w.Covers) :
    collapseSeparators (w.outerText e) = w.outerText e := by
  rw [collapseSeparators_eq_scan]
  have whole {e : Expr} (h : e.Every w.Covers) :
      collapseFrom none false (w.text e) = w.text e := by
    simpa [collapseFrom] using collapseFrom_text hw h []
  cases e with
  | binary op lhs rhs =>
      rw [Expr.every_binary] at h
      rw [Spelling.outerText, List.append_assoc, collapseFrom_text hw h.2.1,
        collapseFrom_neutral (isNeutral_operator w op), whole h.2.2]
  | _ => exact whole h

end Spreadsheet.Formula
