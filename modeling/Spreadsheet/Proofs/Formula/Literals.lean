import Spreadsheet.Formula.Functions
import Spreadsheet.Proofs.Formula.Quoting
import Spreadsheet.Proofs.Formula.Tokens
import Spreadsheet.Proofs.Template.Derivation
import Spreadsheet.Proofs.Template.Naming

/-!
# Literals and the scanners

A text written as a literal is that text to everything that reads it: the parser of expressions reads
it back, the search for placeholders finds none in it, and the passes over a formula copy it and go
on behind it as they would at the start of a text.
-/

namespace Spreadsheet.Formula

open Spreadsheet.Text Spreadsheet.Template

/-! ## Placeholders -/

/-- The mask of a literal hides all that is between its quotes. -/
theorem maskFrom_doubled (body : List Char) {rest : List Char} (next : ∀ c ∈ rest.head?, c ≠ '"') :
    maskFrom true (doubled '"' body ++ '"' :: rest) =
      (maskFrom false rest).map ((doubled '"' body).map (⟨·, true⟩) ++ ⟨'"', false⟩ :: ·) := by
  induction body with
  | nil =>
      cases rest with
      | nil => rfl
      | cons c rest =>
          have other := next c rfl
          rw [doubled, List.flatMap_nil, List.nil_append, maskFrom]
          · rfl
          · rintro tail - - same
            exact other (List.cons.inj same).1
  | cons c body ih =>
      rw [doubled_cons]
      by_cases h : c = '"'
      · subst h
        simp [maskFrom, ih, Function.comp_def]
      · rw [if_neg h, List.append_assoc, List.singleton_append, maskFrom]
        · simp [h, ih, Function.comp_def]
        · rintro tail - same
          simp_all

theorem runsFrom_none_plain {before : Option Char} {position : Nat} {ms : List Masked}
    (plain : ∀ m ∈ ms, m.IsPlain) : runsFrom before position none ms = [] := by
  induction ms generalizing before position with
  | nil => rfl
  | cons m ms ih =>
      rw [runsFrom_plain (plain m (by simp))]
      exact ih fun x hx => plain x (List.mem_cons_of_mem _ hx)

/-- A template in whose mask no bracket and no parenthesis is to be seen has no placeholders. -/
theorem placeholders_plain {template : String} {ms : List Masked}
    (masked : mask template.toList = some ms) (plain : ∀ m ∈ ms, m.IsPlain) :
    placeholders template = .ok [] := by
  have absent : '[' ∉ ms.map Masked.shown := by
    rw [List.mem_map]
    rintro ⟨m, hm, shown⟩
    exact plain m hm (by simp [shown])
  have balanced : unbalancedBracket [] (ms.map Masked.shown) = none := by
    have balanced := @unbalancedBracket_plain [] ms plain []
    rwa [List.append_nil] at balanced
  rw [placeholders_eq masked balanced (indexesReserved_of_not_mem absent)
    (hasEmptyBrackets_of_not_mem absent), keyRuns, runsFrom_none_plain plain]
  rfl

theorem placeholders_quoteText (s : String) : placeholders (quoteText s) = .ok [] := by
  have masked : mask (quoteText s).toList =
      some (⟨'"', false⟩ :: ((doubled '"' s.toList).map (⟨·, true⟩) ++ [⟨'"', false⟩])) := by
    rw [toList_quoteText, mask, maskFrom]
    · rw [if_pos rfl, Bool.not_false, maskFrom_doubled s.toList (by simp)]
      rfl
    · rintro tail ⟨⟩
  refine placeholders_plain masked fun m hm => ?_
  simp only [List.mem_cons, List.mem_append, List.mem_map, List.not_mem_nil, or_false] at hm
  rcases hm with rfl | ⟨c, -, rfl⟩ | rfl
  all_goals simp [Masked.IsPlain, Masked.shown]

/-! ## Expressions -/

theorem tokens_quoteText (s : String) : tokens (quoteText s).toList = .ok [⟨.literal s, 0⟩] := by
  have read : lexeme '"' (doubled '"' s.toList ++ ['"']) =
      .ok ⟨.literal s, '"' :: (doubled '"' s.toList ++ ['"']), []⟩ := by
    simp [lexeme, @literalTail_doubled s.toList [] (by simp)]
  rw [toList_quoteText, Template.tokens, List.length_cons, tokensFrom, read]
  generalize (doubled '"' s.toList ++ ['"']).length = fuel
  cases fuel <;> rfl

theorem derives_text (s : String) : Derives .compare [.literal s] (.text s) :=
  .operand rfl (.operand rfl (.operand rfl (.operand rfl (.operand rfl
    (.unsigned (.bare (.text s)))))))

/-! ## All scanners -/

/-- Every scanner takes a literal as one text: it is parsed as that text, it holds no placeholder, and
behind a text that leaves no quote open the passes copy it and start anew. -/
theorem scanners_quoteText (s : String) :
    parse (quoteText s) = .ok (.text s) ∧ placeholders (quoteText s) = .ok [] ∧
      ∀ (known : String → Bool) (pre post : List Char), openQuote none pre = none →
        collapseSeparators (pre ++ ((quoteText s).toList ++ post)) =
            collapseSeparators pre ++ ((quoteText s).toList ++ collapseSeparators post) ∧
          markFutureFunctions known (pre ++ ((quoteText s).toList ++ post)) =
            markFutureFunctions known pre ++
              ((quoteText s).toList ++ markFutureFunctions known post) := by
  refine ⟨parse_eq_ok_iff.2 ⟨_, tokens_quoteText s, derives_text s⟩, placeholders_quoteText s, ?_⟩
  intro known pre post closed
  exact ⟨mapOutside_quoteText rfl closed s post, mapOutside_quoteText rfl closed s post⟩

/-- A literal that looks like a call with a dangling separator, in front of one that is. -/
theorem scanners_quoteText_separator :
    openQuote none "SUM('Q'!A1,".toList = none ∧
      collapseSeparators
          ("SUM('Q'!A1,".toList ++ ((quoteText "IFS(\"[a], )").toList ++ ", )".toList)) =
        "SUM('Q'!A1,".toList ++ ((quoteText "IFS(\"[a], )").toList ++ ")".toList) := by
  have closed : openQuote none "SUM('Q'!A1,".toList = none := by
    decide +kernel
  have before : collapseSeparators "SUM('Q'!A1,".toList = "SUM('Q'!A1,".toList := by
    decide +kernel
  have behind : collapseSeparators ", )".toList = ")".toList := by
    decide +kernel
  refine ⟨closed, ?_⟩
  rw [((scanners_quoteText "IFS(\"[a], )").2.2 isKnownFunction _ ", )".toList closed).1, before,
    behind]

end Spreadsheet.Formula
