import Spreadsheet.Proofs.Formula.CleanUp

/-!
# Marking the calls of an expression

Marking newer functions in the text of an expression changes how its calls are named and nothing
else: a name in front of a parenthesis is always that of a call, at its full length, and no atom is
ever in front of a parenthesis.
-/

namespace Spreadsheet.Formula

open Spreadsheet.Text Spreadsheet.Template

/-- The name of a call, with the marker where it needs one. -/
def markedName (known : String → Bool) (name : String) : List Char :=
  (if needsMarker known name.toList then futureMarker.toList else []) ++ name.toList

/-- The spelling with marks in front of the names of calls that need them. -/
def Spelling.marked (w : Spelling) (known : String → Bool) : Spelling :=
  { w with call := markedName known }

theorem namesCalls_marked (w : Spelling) (known : String → Bool) : (w.marked known).NamesCalls := by
  intro name _
  simp only [Spelling.marked, markedName]
  split
  · exact .inr rfl
  · exact .inl rfl

variable {w : Spelling} (known : String → Bool)

/-! ## Text without calls -/

theorem markFrom_cons {c : Char} (quote : isQuoteMark c = false) (start : isNameStart c = false)
    (before : Option Char) (rest : List Char) :
    markFrom known none before false (c :: rest) =
      c :: markFrom known none (some c) false rest := by
  simp [markFrom, quote, callName, start]

/-- Whether a character separates names without being part of one. -/
def IsSymbol (c : Char) : Prop :=
  isQuoteMark c = false ∧ isNameStart c = false ∧ isWordChar c = false

/-- Whether a call can start behind a character. -/
def AtBoundary (before : Option Char) : Prop :=
  before.any isWordChar = false

theorem markFrom_symbols {cs : List Char} (nonempty : cs ≠ []) (h : ∀ c ∈ cs, IsSymbol c)
    (before : Option Char) (rest : List Char) :
    ∃ last, AtBoundary last ∧
      markFrom known none before false (cs ++ rest) = cs ++ markFrom known none last false rest := by
  induction cs generalizing before with
  | nil => exact absurd rfl nonempty
  | cons c cs ih =>
      obtain ⟨quote, start, word⟩ := h c (by simp)
      rw [List.cons_append, markFrom_cons known quote start]
      cases cs with
      | nil => exact ⟨some c, word, rfl⟩
      | cons d cs =>
          obtain ⟨last, boundary, same⟩ := ih (by simp) (fun x hx => h x (by simp [hx])) (some c)
          exact ⟨last, boundary, by rw [same]; rfl⟩

theorem isSymbol_operator (w : Spelling) (op : BinaryOp) :
    w.operator op ≠ [] ∧ ∀ c ∈ w.operator op, IsSymbol c := by
  have symbols : ∀ c ∈ [' ', '+', '-', '*', '/', '^', '&', '=', '<', '>'], IsSymbol c := by
    have : ∀ c ∈ [' ', '+', '-', '*', '/', '^', '&', '=', '<', '>'],
        isQuoteMark c = false ∧ isNameStart c = false ∧ isWordChar c = false :=
      forall_mem_of_all (by decide)
    exact this
  have gap : ∀ c ∈ w.gap, IsSymbol c := by
    intro c hc
    have : c = ' ' := by
      cases h : w.spacing <;> simp [Spelling.gap, h] at hc
      exact hc
    exact symbols c (by simp [this])
  constructor
  · cases op <;> simp [Spelling.operator, BinaryOp.symbol]
  · simp only [Spelling.operator, List.mem_append]
    rintro c ((hc | hc) | hc)
    · exact gap c hc
    · refine symbols c ?_
      revert c
      cases op <;> simp [BinaryOp.symbol]
    · exact gap c hc

/-! ## Atoms -/

theorem head_dropWhile_atom {cs rest : List Char} (chars : ∀ c ∈ cs, isAtomChar c = true)
    (stops : Stops rest) : ((cs ++ rest).dropWhile isNameRest).head? ≠ some '(' := by
  induction cs with
  | nil =>
      cases rest with
      | nil => simp
      | cons c rest =>
          obtain ⟨name, -, paren, -⟩ := delimiter_facts (stops c rfl)
          simp [name, paren]
  | cons c cs ih =>
      by_cases name : isNameRest c = true
      · rw [List.cons_append, List.dropWhile_cons_of_pos name]
        exact ih fun d hd => chars d (by simp [hd])
      · have paren := (isAtomChar_facts (chars c (by simp))).2.2.1
        simp [name, paren]

theorem markFrom_atomChars {cs rest : List Char} (chars : ∀ c ∈ cs, isAtomChar c = true)
    (stops : Stops rest) (before : Option Char) :
    ∃ last, markFrom known none before false (cs ++ rest) =
      cs ++ markFrom known none last false rest := by
  induction cs generalizing before with
  | nil => exact ⟨before, rfl⟩
  | cons c cs ih =>
      have tail : ∀ d ∈ cs, isAtomChar d = true := fun d hd => chars d (by simp [hd])
      obtain ⟨quote, -⟩ := isAtomChar_facts (chars c (by simp))
      have noCall : callName (c :: (cs ++ rest)) = none := by
        have := head_dropWhile_atom tail stops
        simp [callName, this]
      obtain ⟨last, same⟩ := ih tail (some c)
      refine ⟨last, ?_⟩
      simp [markFrom, quote, noCall, same]

theorem markFrom_doubled {q : Char} (hq : isQuoteMark q = true) (body rest : List Char) :
    markFrom known (some q) none false (doubled q body ++ rest) =
      doubled q body ++ markFrom known (some q) none false rest := by
  induction body with
  | nil => rfl
  | cons c body ih =>
      rw [doubled_cons, List.append_assoc]
      by_cases h : c = q
      · subst h
        simpa [markFrom, hq] using ih
      · simpa [markFrom, h] using ih

theorem markFrom_atom {cs rest : List Char} (h : Atom cs) (stops : Stops rest)
    (before : Option Char) :
    ∃ last, markFrom known none before false (cs ++ rest) =
      cs ++ markFrom known none last false rest := by
  cases h with
  | plain nonempty chars => exact markFrom_atomChars known chars stops before
  | @quoted q body tail quote chars =>
      obtain ⟨last, same⟩ := markFrom_atomChars known chars stops none
      refine ⟨last, ?_⟩
      simp only [List.cons_append, List.append_assoc]
      rw [markFrom, if_pos quote, markFrom_doubled known quote, markFrom, if_pos rfl, same]

/-! ## Calls -/

theorem markFrom_inName {cs : List Char} (h : ∀ c ∈ cs, isNameRest c = true)
    (before : Option Char) (rest : List Char) :
    markFrom known none before true (cs ++ '(' :: rest) =
      cs ++ '(' :: markFrom known none (some '(') false rest := by
  induction cs generalizing before with
  | nil => simp [markFrom, isQuoteMark]
  | cons c cs ih =>
      obtain ⟨quote, -, paren, -⟩ := isAtomChar_facts (isAtomChar_of_isNameRest (h c (by simp)))
      have inside : (c != '(') = true := by simpa using paren
      have := ih (fun d hd => h d (by simp [hd])) (some c)
      simp [markFrom, quote, inside, this]

/-- At a boundary a name with a parenthesis behind it is that of a call. -/
theorem markFrom_name {name : String} (h : IsName name.toList) {before : Option Char}
    (boundary : AtBoundary before) (rest : List Char) :
    markFrom known none before false (name.toList ++ '(' :: rest) =
      markedName known name ++ '(' :: markFrom known none (some '(') false rest := by
  obtain ⟨chars, c, hc, start⟩ := h
  cases hname : name.toList with
  | nil => simp [hname] at hc
  | cons d cs =>
      rw [hname] at chars hc
      obtain rfl : d = c := by simpa using hc
      have tail : ∀ x ∈ cs, isNameRest x = true := fun x hx => chars x (by simp [hx])
      have paren : isNameRest '(' = false := rfl
      have quote := (isAtomChar_facts (isAtomChar_of_isNameRest (chars d (by simp)))).1
      have found : callName (d :: (cs ++ '(' :: rest)) = some (d :: cs) := by
        rw [callName, List.dropWhile_append_of_pos tail, List.takeWhile_append_of_pos tail]
        simp [start, paren]
      rw [List.cons_append, markFrom, boundary]
      simp [quote, found, markedName, hname, markFrom_inName known tail]

theorem atBoundary_of_isSymbol {c : Char} (h : IsSymbol c) : AtBoundary (some c) :=
  h.2.2

private theorem isSymbol_marks :
    IsSymbol '(' ∧ IsSymbol ')' ∧ IsSymbol ',' ∧ IsSymbol ' ' ∧ IsSymbol '-' ∧ IsSymbol '+' ∧
      IsSymbol '%' := by
  have : ∀ c ∈ ['(', ')', ',', ' ', '-', '+', '%'],
      isQuoteMark c = false ∧ isNameStart c = false ∧ isWordChar c = false :=
    forall_mem_of_all (by decide)
  simpa [IsSymbol] using this

/-- Marking changes the names of calls only. -/
theorem markFrom_text (plain : ∀ name, w.call name = name.toList) {e : Expr}
    (h : e.Every w.Covers) {before : Option Char} (boundary : AtBoundary before)
    {rest : List Char} (stops : Stops rest) :
    ∃ last, markFrom known none before false (w.text e ++ rest) =
      (w.marked known).text e ++ markFrom known none last false rest := by
  obtain ⟨opening, closing, comma, blank, minus, plus, percent⟩ := isSymbol_marks
  have symbol {c : Char} (hc : IsSymbol c) (before : Option Char) (rest : List Char) :
      markFrom known none before false (c :: rest) =
        c :: markFrom known none (some c) false rest :=
    markFrom_cons known hc.1 hc.2.1 before rest
  induction e using Expr.inductionOn generalizing before rest with
  | number x => exact markFrom_atom known h.self stops before
  | text s => exact markFrom_atom known (atom_quoteText s) stops before
  | bool b => exact markFrom_atom known (atom_boolText b) stops before
  | ref key => exact markFrom_atom known h.self stops before
  | index target key => exact h.self.elim
  | unary op operand ih =>
      rw [Expr.every_unary] at h
      cases op with
      | neg =>
          obtain ⟨last, same⟩ := ih h.2 (atBoundary_of_isSymbol minus) stops
          refine ⟨last, ?_⟩
          rw [Spelling.text, List.cons_append, symbol minus, same, Spelling.text, List.cons_append]
      | plus =>
          obtain ⟨last, same⟩ := ih h.2 (atBoundary_of_isSymbol plus) stops
          refine ⟨last, ?_⟩
          rw [Spelling.text, List.cons_append, symbol plus, same, Spelling.text, List.cons_append]
      | percent =>
          obtain ⟨last, same⟩ := ih h.2 boundary (show Stops ('%' :: rest) from stops_cons rfl)
          refine ⟨some '%', ?_⟩
          rw [Spelling.text, List.append_assoc, List.singleton_append, same, symbol percent,
            Spelling.text, List.append_assoc, List.singleton_append]
  | binary op lhs rhs ihl ihr =>
      rw [Expr.every_binary] at h
      obtain ⟨_, left⟩ := ihl h.2.1 (atBoundary_of_isSymbol opening)
        (stops_operator w op (w.text rhs ++ ')' :: rest))
      obtain ⟨nonempty, symbols⟩ := isSymbol_operator w op
      obtain ⟨_, behind, middle⟩ := markFrom_symbols known nonempty symbols _
        (w.text rhs ++ ')' :: rest)
      obtain ⟨_, right⟩ := ihr h.2.2 behind (show Stops (')' :: rest) from stops_cons rfl)
      refine ⟨some ')', ?_⟩
      simp only [Spelling.text, List.cons_append, List.append_assoc, List.nil_append]
      rw [symbol opening, left, middle, right, symbol closing]
      rfl
  | call name args ih =>
      rw [Expr.every_call] at h
      have named := markFrom_name known h.1.1 boundary
      have more : ∀ rest' : List Expr, (∀ arg ∈ rest', arg ∈ args) → ∀ before rest,
          ∃ last, markFrom known none before false (w.moreText rest' ++ ')' :: rest) =
            (w.marked known).moreText rest' ++
              markFrom known none last false (')' :: rest) := by
        intro rest' hin
        induction rest' with
        | nil =>
            intro before rest
            exact ⟨before, rfl⟩
        | cons arg rest' ihm =>
            intro before rest
            have harg := hin arg (by simp)
            obtain ⟨_, first⟩ := ih arg harg (h.2 arg harg) (atBoundary_of_isSymbol blank)
              (stops_moreText w rest' rest)
            obtain ⟨last, others⟩ := ihm (fun x hx => hin x (by simp [hx])) _ rest
            refine ⟨last, ?_⟩
            simp only [Spelling.moreText, List.cons_append, List.append_assoc]
            rw [symbol comma, symbol blank, first, others]
      refine ⟨some ')', ?_⟩
      cases args with
      | nil =>
          simp only [Spelling.text, List.append_assoc, List.cons_append, List.nil_append]
          rw [plain, named, symbol closing]
          rfl
      | cons arg args =>
          obtain ⟨_, first⟩ := ih arg (by simp) (h.2 arg (by simp))
            (atBoundary_of_isSymbol opening) (stops_moreText w args rest)
          obtain ⟨_, others⟩ := more args (fun x hx => by simp [hx]) _ rest
          simp only [Spelling.text, List.append_assoc, List.cons_append, List.nil_append]
          rw [plain, named, first, others, symbol closing]
          rfl

theorem markFutureFunctions_outerText (plain : ∀ name, w.call name = name.toList) {e : Expr}
    (h : e.Every w.Covers) :
    markFutureFunctions known (w.outerText e) = (w.marked known).outerText e := by
  rw [markFutureFunctions_eq_scan]
  have whole {e : Expr} (h : e.Every w.Covers) {before : Option Char}
      (boundary : AtBoundary before) :
      markFrom known none before false (w.text e) = (w.marked known).text e := by
    obtain ⟨last, same⟩ := markFrom_text known plain h boundary stops_nil
    simpa [markFrom] using same
  have start : AtBoundary none := rfl
  cases e with
  | binary op lhs rhs =>
      rw [Expr.every_binary] at h
      obtain ⟨_, left⟩ := markFrom_text known plain h.2.1 start
        (stops_operator w op (w.text rhs))
      obtain ⟨nonempty, symbols⟩ := isSymbol_operator w op
      obtain ⟨_, behind, middle⟩ := markFrom_symbols known nonempty symbols _ (w.text rhs)
      simp only [Spelling.outerText, List.append_assoc]
      rw [left, middle, whole h.2.2 behind]
      rfl
  | _ => exact whole h start

end Spreadsheet.Formula
