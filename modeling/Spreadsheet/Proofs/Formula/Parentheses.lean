import Spreadsheet.Proofs.Formula.CleanUp
import Spreadsheet.Proofs.Template.Naming
import Spreadsheet.Proofs.Text.Nesting

/-!
# Parentheses around a formula

The pass that removes outer parentheses follows the number of open parentheses and stops where it
comes back to zero.  On a text with closed quotes and paired parentheses that is at the last character
exactly if what lies between it and the first parenthesis is such a text itself.
-/

namespace Spreadsheet.Formula

open Spreadsheet.Text Spreadsheet.Template

variable {cs inner : List Char} {quote : Option Char} {depth : Nat}

/-- The quotes and the parentheses of a formula text. -/
def parentheses : Nesting where
  marks := isQuoteMark
  opens := (· == '(')
  closes := (· == ')')

/-- Whether the parenthesis that a text starts with is closed by its last character: what is between
the two is level. -/
def Encloses (cs inner : List Char) : Prop :=
  cs = '(' :: (inner ++ [')']) ∧ parentheses.Level inner

theorem weight_of_isQuoteMark {c : Char} (mark : isQuoteMark c = true) :
    parentheses.weight none c = 0 := by
  rcases isQuoteMark_iff.1 mark with rfl | rfl <;> rfl

/-- The pass looks for a place before the end where no parenthesis is open. -/
theorem closesEarly_eq_false_iff (cs : List Char) (opened : 0 < depth) :
    closesEarly quote depth cs = false ↔ parentheses.StaysInside quote depth cs := by
  induction cs generalizing quote depth with
  | nil => simp [closesEarly, Nesting.staysInside_nil]
  | cons c rest ih =>
      have positive : (0 : Int) < depth := by exact_mod_cast opened
      rw [Nesting.staysInside_cons, and_iff_right positive]
      cases quote with
      | some q => simp [closesEarly, ih opened, Nesting.behind, Nesting.weight]
      | none =>
          by_cases mark : isQuoteMark c = true
          · have quoted : parentheses.behind none c = some c := by
              simp [Nesting.behind, parentheses, mark]
            simp [closesEarly, ih opened, quoted, weight_of_isQuoteMark mark, mark]
          have behind : parentheses.behind none c = none := by
            simp [Nesting.behind, parentheses, mark]
          rw [closesEarly, if_neg mark, behind]
          by_cases opens : c = '('
          · subst opens
            have deeper := @ih none (depth + 1) (Nat.succ_pos depth)
            simpa [Nesting.weight, parentheses] using deeper
          by_cases closes : c = ')'
          · subst closes
            have weight : parentheses.weight none ')' = -1 := rfl
            rw [if_neg opens, if_pos rfl, weight]
            obtain rfl | more : depth = 1 ∨ 1 < depth := by omega
            · cases rest with
              | nil => simp [closesEarly, Nesting.staysInside_nil]
              | cons d rest => simp [Nesting.staysInside_cons]
            · have outer := @ih none (depth - 1) (by omega)
              have level : ((depth - 1 : Nat) : Int) = depth + -1 := by omega
              have above : depth - 1 ≠ 0 := by omega
              rw [level] at outer
              simp [outer, above]
          · simp [ih opened, opens, closes, Nesting.weight, parentheses]

theorem not_isQuoteMark_of_isBlank {c : Char} (blank : isBlank c = true) : isQuoteMark c = false := by
  by_contra mark
  rw [not_isBlank_of_isQuoteMark (by simpa using mark)] at blank
  cases blank

theorem level_trim (h : parentheses.Level cs) : parentheses.Level (trim cs) := by
  have neutral (c : Char) (blank : isBlank c = true) : parentheses.marks c = false ∧
      parentheses.opens c = false ∧ parentheses.closes c = false := by
    refine ⟨not_isQuoteMark_of_isBlank blank, ?_, ?_⟩
    · rw [parentheses, beq_eq_false_iff_ne]
      rintro rfl
      exact absurd blank (by decide)
    · rw [parentheses, beq_eq_false_iff_ne]
      rintro rfl
      exact absurd blank (by decide)
  obtain ⟨front, back, whole, hfront, hback⟩ := exists_trim cs
  rw [whole] at h
  exact h.middle (fun c hc => neutral c (hfront c hc)) fun c hc => neutral c (hback c hc)

/-- The pass removes a pair of parentheses exactly if the first is closed by the last character. -/
theorem closesEarly_inner (h : parentheses.Level ('(' :: (inner ++ [')']))) :
    closesEarly none 0 ('(' :: (inner ++ [')'])) = false ↔ parentheses.Level inner := by
  rw [h.inner_iff rfl rfl, closesEarly_open, closesEarly_eq_false_iff _ Nat.one_pos]
  rfl

theorem exists_inner {cs : List Char} (first : cs.head? = some '(')
    (last : cs.getLast? = some ')') : ∃ inner, cs = '(' :: (inner ++ [')']) := by
  obtain ⟨rest, rfl⟩ := List.head?_eq_some_iff.1 first
  obtain ⟨front, same⟩ := List.getLast?_eq_some_iff.1 last
  cases front with
  | nil => cases same
  | cons c front =>
      obtain ⟨rfl, rfl⟩ := List.cons.inj same
      exact ⟨front, rfl⟩

/-- Of a text with closed quotes and paired parentheses a pair is removed where it encloses all of the
trimmed text, and nothing else is; what is left has closed quotes and paired parentheses. -/
theorem stripOuterParens_enclosing (h : parentheses.Level cs) :
    (∀ inner, Encloses (trim cs) inner → stripOuterParens cs = trim inner) ∧
      ((∀ inner, ¬Encloses (trim cs) inner) → stripOuterParens cs = trim cs) ∧
      parentheses.Level (stripOuterParens cs) := by
  have level := level_trim h
  have removed (inner : List Char) (encloses : Encloses (trim cs) inner) :
      stripOuterParens cs = trim inner := by
    obtain ⟨whole, within⟩ := encloses
    rw [whole] at level
    have late := (closesEarly_inner level).2 within
    have last : ('(' :: (inner ++ [')'])).getLast? = some ')' := by
      rw [← List.cons_append, List.getLast?_concat]
    simp only [stripOuterParens, whole]
    rw [if_pos ⟨rfl, last, late⟩, List.drop_succ_cons, List.drop_zero, List.dropLast_concat]
  have kept (none : ∀ inner, ¬Encloses (trim cs) inner) : stripOuterParens cs = trim cs := by
    rw [stripOuterParens]
    refine if_neg ?_
    rintro ⟨first, last, late⟩
    obtain ⟨inner, whole⟩ := exists_inner first last
    rw [whole] at level late
    exact none inner ⟨whole, (closesEarly_inner level).1 late⟩
  refine ⟨removed, kept, ?_⟩
  by_cases encloses : ∃ inner, Encloses (trim cs) inner
  · obtain ⟨inner, encloses⟩ := encloses
    rw [removed inner encloses]
    exact level_trim encloses.2
  · rw [kept fun inner enclosed => encloses ⟨inner, enclosed⟩]
    exact level

/-- The first parenthesis has a partner before the last one, and the last one has its own in a literal
and in the name of a sheet in front of it. -/
theorem stripOuterParens_enclosing_sheetName :
    parentheses.Level " ((A1) & \"(\" & 'a)b'!B2 ) ".toList ∧
      Encloses (trim " ((A1) & \"(\" & 'a)b'!B2 ) ".toList) "(A1) & \"(\" & 'a)b'!B2 ".toList ∧
      stripOuterParens " ((A1) & \"(\" & 'a)b'!B2 ) ".toList = "(A1) & \"(\" & 'a)b'!B2".toList := by
  have level : parentheses.Level " ((A1) & \"(\" & 'a)b'!B2 ) ".toList := by
    decide +kernel
  have encloses :
      Encloses (trim " ((A1) & \"(\" & 'a)b'!B2 ) ".toList) "(A1) & \"(\" & 'a)b'!B2 ".toList :=
    ⟨by decide +kernel, by decide +kernel⟩
  refine ⟨level, encloses, ?_⟩
  rw [(stripOuterParens_enclosing level).1 _ encloses]
  decide +kernel

end Spreadsheet.Formula
