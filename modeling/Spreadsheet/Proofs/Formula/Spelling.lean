import Spreadsheet.CellValue
import Spreadsheet.Location
import Spreadsheet.Proofs.Template.Parsed
import Spreadsheet.Proofs.Formula.Passes

/-!
# The spelling of an expression in a formula

The text that is written for an expression as a function of the expression alone, given how
references and names of functions are spelled.  Its leaves are atoms: stretches of letters, digits
and points, or quoted parts.  An atom and every character in front of which an operand can end are
described here by what the scans need to know of them.
-/

namespace Spreadsheet.Formula

open Spreadsheet.Text Spreadsheet.Template

/-- How the parts of a formula are spelled that the expression does not decide. -/
structure Spelling where
  /-- Whether there are blanks around operators. -/
  spacing : Bool
  reference : Key → List Char
  call : String → List Char

namespace Spelling

variable (w : Spelling)

/-- What stands around an operator. -/
def gap : List Char :=
  if w.spacing then [' '] else []

/-- An operator with what stands around it. -/
def operator (op : BinaryOp) : List Char :=
  w.gap ++ op.symbol.toList ++ w.gap

mutual

/-- The text of an expression. -/
def text : Expr → List Char
  | .number x => (Number.literal x).toList
  | .text s => (quoteText s).toList
  | .bool b => (CellValue.boolText b).toList
  | .ref key => w.reference key
  | .index target _ => text target
  | .unary .neg operand => '-' :: text operand
  | .unary .plus operand => '+' :: text operand
  | .unary .percent operand => text operand ++ ['%']
  | .binary op lhs rhs => '(' :: (text lhs ++ w.operator op ++ text rhs ++ [')'])
  | .call name [] => w.call name ++ ['(', ')']
  | .call name (arg :: rest) => w.call name ++ '(' :: (text arg ++ moreText rest ++ [')'])

/-- The text of the arguments of a call after the first one. -/
def moreText : List Expr → List Char
  | [] => []
  | arg :: rest => ',' :: ' ' :: (text arg ++ moreText rest)

end

/-- The text of an expression that is all of a formula: without the parentheses around it. -/
def outerText : Expr → List Char
  | .binary op lhs rhs => w.text lhs ++ w.operator op ++ w.text rhs
  | e => w.text e

end Spelling

/-! ## Delimiters -/

/-- Whether a character can stand behind an operand. -/
def isDelimiter (c : Char) : Bool :=
  [')', ',', ' ', '%', '+', '-', '*', '/', '^', '&', '=', '<', '>'].contains c

/-- Whether an operand can end in front of a text. -/
def Stops (cs : List Char) : Prop :=
  ∀ c ∈ cs.head?, isDelimiter c = true

theorem stops_nil : Stops [] := by
  intro c hc
  cases hc

theorem stops_cons {c : Char} {cs : List Char} (h : isDelimiter c = true) : Stops (c :: cs) := by
  intro d hd
  cases hd
  exact h

/-- What holds of each of several characters is checked one by one. -/
theorem forall_mem_of_all {p : Char → Prop} [DecidablePred p] {cs : List Char}
    (h : cs.all (fun c => decide (p c)) = true) : ∀ c ∈ cs, p c := by
  intro c hc
  exact of_decide_eq_true (List.all_eq_true.1 h c hc)

private theorem delimiters_facts : ∀ c ∈ [')', ',', ' ', '%', '+', '-', '*', '/', '^', '&', '=', '<',
    '>'], isNameRest c = false ∧ isQuoteMark c = false ∧ c ≠ '(' ∧ c ≠ '!' :=
  forall_mem_of_all (by decide)

theorem delimiter_facts {c : Char} (h : isDelimiter c = true) :
    isNameRest c = false ∧ isQuoteMark c = false ∧ c ≠ '(' ∧ c ≠ '!' :=
  delimiters_facts c (by simpa [isDelimiter] using h)

theorem stops_operator (w : Spelling) (op : BinaryOp) (rest : List Char) :
    Stops (w.operator op ++ rest) := by
  have symbol : ∀ op : BinaryOp, ∃ c cs, op.symbol.toList = c :: cs ∧ isDelimiter c = true := by
    intro op
    cases op <;> exact ⟨_, _, rfl, rfl⟩
  obtain ⟨c, cs, hc, hd⟩ := symbol op
  simp only [Spelling.operator, Spelling.gap, hc]
  cases w.spacing
  · exact stops_cons hd
  · exact stops_cons rfl

theorem stops_moreText (w : Spelling) (args : List Expr) (rest : List Char) :
    Stops (w.moreText args ++ ')' :: rest) := by
  cases args with
  | nil =>
      rw [Spelling.moreText]
      exact stops_cons rfl
  | cons arg args =>
      rw [Spelling.moreText]
      exact stops_cons rfl

/-! ## Atoms -/

/-- Whether a character can stand in an atom outside quotes. -/
def isAtomChar (c : Char) : Bool :=
  isNameRest c || c == '!'

/-- A text with every quote of the given kind written twice. -/
def doubled (q : Char) (cs : List Char) : List Char :=
  cs.flatMap fun c => if c = q then [q, q] else [c]

theorem doubled_cons (q c : Char) (cs : List Char) :
    doubled q (c :: cs) = (if c = q then [q, q] else [c]) ++ doubled q cs := by
  simp [doubled]

theorem doubled_append (q : Char) (front back : List Char) :
    doubled q (front ++ back) = doubled q front ++ doubled q back :=
  List.flatMap_append

theorem doubled_of_not_mem {q : Char} {cs : List Char} (h : q ∉ cs) : doubled q cs = cs := by
  induction cs with
  | nil => rfl
  | cons c cs ih =>
      rw [List.mem_cons, not_or] at h
      have other : c ≠ q := fun same => h.1 same.symm
      rw [doubled_cons, if_neg other, ih h.2, List.singleton_append]

theorem toList_quoteText (s : String) :
    (quoteText s).toList = '"' :: (doubled '"' s.toList ++ ['"']) := by
  simp [quoteText, doubled]

theorem quoteText_append (s : String) (rest : List Char) :
    (quoteText s).toList ++ rest = '"' :: (doubled '"' s.toList ++ '"' :: rest) := by
  simp [toList_quoteText]

/-- The text of a leaf of an expression. -/
inductive Atom : List Char → Prop
  | plain {cs : List Char} (nonempty : cs ≠ []) (chars : ∀ c ∈ cs, isAtomChar c = true) : Atom cs
  | quoted {q : Char} (body : List Char) {tail : List Char} (quote : isQuoteMark q = true)
      (chars : ∀ c ∈ tail, isAtomChar c = true) : Atom (q :: (doubled q body ++ q :: tail))

theorem isAtomChar_facts {c : Char} (h : isAtomChar c = true) :
    isQuoteMark c = false ∧ isBlank c = false ∧ c ≠ '(' ∧ c ≠ ')' ∧ c ≠ ',' := by
  have ascii : c.toNat < 128 := by
    simp only [isAtomChar, Bool.or_eq_true, beq_iff_eq] at h
    rcases h with h | rfl
    · exact toNat_lt_of_isNameRest h
    · decide
  have all : ∀ k : Fin 128, isAtomChar (Char.ofNat k) = true →
      isQuoteMark (Char.ofNat k) = false ∧ isBlank (Char.ofNat k) = false ∧
        Char.ofNat k ≠ '(' ∧ Char.ofNat k ≠ ')' ∧ Char.ofNat k ≠ ',' := by
    decide
  have := all ⟨c.toNat, ascii⟩
  simp only [Char.ofNat_toNat] at this
  exact this h

theorem isAtomChar_of_isNameRest {c : Char} (h : isNameRest c = true) : isAtomChar c = true := by
  simp [isAtomChar, h]

theorem atom_number {x : Float} (unsigned : Number.Unsigned x) (finite : Number.IsFinite x) :
    Atom (Number.literal x).toList := by
  obtain ⟨d, hd⟩ := Number.literal_of_unsigned unsigned finite
  obtain ⟨nonempty, chars⟩ := Number.positional_chars d
  rw [hd]
  refine .plain nonempty fun c hc => isAtomChar_of_isNameRest ?_
  have := chars c hc
  simp only [Number.isDecimalChar, isNameRest, Char.isAlphanum, Bool.or_eq_true] at this ⊢
  rcases this with h | h
  · exact .inl (.inl (.inr h))
  · exact .inr h

theorem atom_quoteText (s : String) : Atom (quoteText s).toList := by
  rw [toList_quoteText]
  exact .quoted s.toList rfl (by simp)

theorem atom_boolText (b : Bool) : Atom (CellValue.boolText b).toList := by
  cases b
  · exact .plain (by decide) (forall_mem_of_all (by decide))
  · exact .plain (by decide) (forall_mem_of_all (by decide))

/-! ## References -/

theorem isNameRest_columnDigits (n : Nat) : ∀ c ∈ columnDigits n, c.isAlpha = true := by
  induction n using Nat.strongRecOn with
  | ind n ih =>
      rw [columnDigits]
      split
      · simp
      · simp only [List.mem_append, List.mem_singleton]
        have letter : ∀ k : Fin 26, (Char.ofNat ('A'.toNat + k)).isAlpha = true := by decide
        rintro c (hc | rfl)
        · exact ih _ (by omega) c hc
        · exact letter ⟨(n - 1) % 26, by omega⟩

theorem columnDigits_ne_nil {n : Nat} (h : 0 < n) : columnDigits n ≠ [] := by
  rw [columnDigits]
  split
  · omega
  · simp

theorem a1_toList (l : Location) :
    l.a1.toList = columnDigits (l.col + 1) ++ Nat.toDigits 10 (l.row + 1) := by
  simp [Location.a1, a1Text, columnLetters, Number.natText, String.toList_append]

theorem not_isAlpha_of_isDigit {c : Char} (h : c.isDigit = true) : c.isAlpha = false := by
  obtain ⟨k, rfl⟩ := ofNat_toNat_of_isNameRest (c := c) (by simp [isNameRest, Char.isAlphanum, h])
  have all : ∀ k : Fin 128, (Char.ofNat k).isDigit = true → (Char.ofNat k).isAlpha = false := by
    decide
  exact all k h

theorem isNameRest_a1 (l : Location) : ∀ c ∈ l.a1.toList, isNameRest c = true := by
  rw [a1_toList]
  simp only [List.mem_append]
  rintro c (hc | hc)
  · simp [isNameRest, Char.isAlphanum, isNameRest_columnDigits _ c hc]
  · simp [isNameRest, Char.isAlphanum, Nat.isDigit_of_mem_toDigits (by omega) (by omega) hc]

theorem a1_ne_nil (l : Location) : l.a1.toList ≠ [] := by
  rw [a1_toList]
  simp [columnDigits_ne_nil]

theorem atom_qualified (l : Location) (sheet : String) : Atom (l.qualified sheet).toList := by
  have chars : ∀ c ∈ l.a1.toList, isAtomChar c = true :=
    fun c hc => isAtomChar_of_isNameRest (isNameRest_a1 l c hc)
  simp only [Location.qualified]
  split
  · exact .plain (a1_ne_nil l) chars
  · simp only [quoteSheetName]
    split
    · rename_i plain
      simp only [Bool.and_eq_true, List.all_eq_true] at plain
      refine .plain (by simp [String.toList_append]) ?_
      simp only [String.toList_append, List.mem_append]
      rintro c ((hc | hc) | hc)
      · exact isAtomChar_of_isNameRest (plain.1 c hc)
      · obtain rfl : c = '!' := by simpa using hc
        rfl
      · exact chars c hc
    · have := @Atom.quoted '\'' l.sheet.toList ('!' :: l.a1.toList) rfl (by
        intro c hc
        rcases List.mem_cons.1 hc with rfl | hc
        · rfl
        · exact chars c hc)
      simpa [String.toList_append, doubled] using this

/-! ## Expressions that can be spelled -/

/-- What the scans need to know of every part of an expression. -/
def Spelling.Covers (w : Spelling) : Expr → Prop
  | .number x => Atom (Number.literal x).toList
  | .ref key => Atom (w.reference key)
  | .index _ _ => False
  | .call name _ => IsUpperName name.toList
  | _ => True

/-- Whether a text can begin with a character. -/
def isOpening (c : Char) : Bool :=
  isAtomChar c || isQuoteMark c || ['-', '+', '('].contains c

theorem isOpening_facts {c : Char} (h : isOpening c = true) : isBlank c = false ∧ c ≠ ')' := by
  simp only [isOpening, Bool.or_eq_true, List.contains_cons, beq_iff_eq] at h
  rcases h with (h | h) | rfl | rfl | rfl | h
  · obtain ⟨-, blank, -, paren, -⟩ := isAtomChar_facts h
    exact ⟨blank, paren⟩
  · refine ⟨not_isBlank_of_isQuoteMark h, ?_⟩
    rintro rfl
    cases h
  · exact ⟨by decide, by decide⟩
  · exact ⟨by decide, by decide⟩
  · exact ⟨by decide, by decide⟩
  · cases h

theorem Atom.opening {cs : List Char} (h : Atom cs) :
    ∃ c rest, cs = c :: rest ∧ isOpening c = true := by
  cases h with
  | plain nonempty chars =>
      obtain ⟨c, rest, rfl⟩ := List.exists_cons_of_ne_nil nonempty
      exact ⟨c, rest, rfl, by simp [isOpening, chars c]⟩
  | quoted body quote chars => exact ⟨_, _, rfl, by simp [isOpening, quote]⟩

/-- Whether a text can end with a character. -/
def isClosing (c : Char) : Bool :=
  isAtomChar c || isQuoteMark c || ['%', ')'].contains c

theorem isClosing_facts {c : Char} (h : isClosing c = true) : isBlank c = false := by
  simp only [isClosing, Bool.or_eq_true, List.contains_cons, beq_iff_eq] at h
  rcases h with (h | h) | rfl | rfl | h
  · exact (isAtomChar_facts h).2.1
  · exact not_isBlank_of_isQuoteMark h
  · decide
  · decide
  · cases h

theorem Atom.closing {cs : List Char} (h : Atom cs) :
    ∃ front c, cs = front ++ [c] ∧ isClosing c = true := by
  cases h with
  | plain nonempty chars =>
      refine ⟨_, _, (List.dropLast_concat_getLast nonempty).symm, ?_⟩
      simp [isClosing, chars _ (List.getLast_mem nonempty)]
  | @quoted q body tail quote chars =>
      by_cases empty : tail = []
      · subst empty
        exact ⟨q :: doubled q body, q, by simp, by simp [isClosing, quote]⟩
      · refine ⟨q :: (doubled q body ++ q :: tail.dropLast), tail.getLast empty, ?_, ?_⟩
        · simp [List.dropLast_concat_getLast]
        · simp [isClosing, chars _ (List.getLast_mem empty)]

variable {w : Spelling}

/-- The condition on the spelling of names: as they are, or with the marker in front. -/
def Spelling.NamesCalls (w : Spelling) : Prop :=
  ∀ name, IsUpperName name.toList →
    w.call name = name.toList ∨ w.call name = futureMarker.toList ++ name.toList

theorem isUpperName_opening {cs : List Char} (h : IsUpperName cs) :
    ∃ c rest, cs = c :: rest ∧ isNameStart c = true := by
  obtain ⟨⟨-, c, hc, start⟩, -⟩ := h
  cases cs with
  | nil => cases hc
  | cons d rest =>
      cases hc
      exact ⟨c, rest, rfl, start⟩

theorem Spelling.NamesCalls.opening (hw : w.NamesCalls) {name : String}
    (h : IsUpperName name.toList) : ∃ c rest, w.call name = c :: rest ∧ isNameStart c = true := by
  rcases hw name h with same | marked
  · rw [same]
    exact isUpperName_opening h
  · rw [marked]
    exact ⟨_, _, rfl, rfl⟩

theorem text_opening (hw : w.NamesCalls) {e : Expr} (h : e.Every w.Covers) :
    ∃ c rest, w.text e = c :: rest ∧ isOpening c = true := by
  have named {name : String} {rest : List Char} (hname : IsUpperName name.toList) :
      ∃ c cs, w.call name ++ rest = c :: cs ∧ isOpening c = true := by
    obtain ⟨c, cs, hc, start⟩ := hw.opening hname
    refine ⟨c, cs ++ rest, by simp [hc], ?_⟩
    simp [isOpening, isAtomChar, isNameRest_of_isNameStart start]
  induction e using Expr.inductionOn with
  | number x => exact h.self.opening
  | text s => exact (atom_quoteText s).opening
  | bool b => exact (atom_boolText b).opening
  | ref key => exact h.self.opening
  | index target key => exact h.self.elim
  | unary op operand ih =>
      rw [Expr.every_unary] at h
      cases op with
      | neg => exact ⟨_, _, rfl, rfl⟩
      | plus => exact ⟨_, _, rfl, rfl⟩
      | percent =>
          obtain ⟨c, rest, hc, opening⟩ := ih h.2
          exact ⟨c, rest ++ ['%'], by simp [Spelling.text, hc], opening⟩
  | binary op lhs rhs => exact ⟨_, _, rfl, rfl⟩
  | call name args =>
      rw [Expr.every_call] at h
      cases args with
      | nil => exact named h.1
      | cons arg rest => exact named h.1

theorem text_closing {e : Expr} (h : e.Every w.Covers) :
    ∃ front c, w.text e = front ++ [c] ∧ isClosing c = true := by
  induction e using Expr.inductionOn with
  | number x => exact h.self.closing
  | text s => exact (atom_quoteText s).closing
  | bool b => exact (atom_boolText b).closing
  | ref key => exact h.self.closing
  | index target key => exact h.self.elim
  | unary op operand ih =>
      rw [Expr.every_unary] at h
      obtain ⟨front, c, hc, closing⟩ := ih h.2
      cases op with
      | neg => exact ⟨'-' :: front, c, by simp [Spelling.text, hc], closing⟩
      | plus => exact ⟨'+' :: front, c, by simp [Spelling.text, hc], closing⟩
      | percent => exact ⟨_, '%', rfl, rfl⟩
  | binary op lhs rhs =>
      exact ⟨'(' :: (w.text lhs ++ w.operator op ++ w.text rhs), ')', by simp [Spelling.text], rfl⟩
  | call name args =>
      cases args with
      | nil => exact ⟨w.call name ++ ['('], ')', by simp [Spelling.text], rfl⟩
      | cons arg rest =>
          exact ⟨w.call name ++ '(' :: (w.text arg ++ w.moreText rest), ')',
            by simp [Spelling.text], rfl⟩

end Spreadsheet.Formula
