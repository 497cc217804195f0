import Spreadsheet.Proofs.Formula.Quoting

/-!
# Runs of separators

How many separators stand in a row in front of a closing parenthesis, and what collapsing them makes
of such a run.  The pass looks ahead in the text that it reads, not in the text that it writes, so it
takes one separator off every run: a run of one is gone, and of a longer one the others are left.
-/

namespace Spreadsheet.Formula

open Spreadsheet.Text

variable {cs pre rest : List Char} {c : Char} {quote : Option Char} {n : Nat}

/-! ## Runs -/

/-- Separators in a row, given what stands behind each of them. -/
def separators (gaps : List (List Char)) : List Char :=
  gaps.flatMap (',' :: ·)

theorem separators_cons (gap : List Char) (gaps : List (List Char)) :
    separators (gap :: gaps) = ',' :: (gap ++ separators gaps) :=
  rfl

/-- Whether some number of separators in a row, with blanks behind each of them, stands in front of a
closing parenthesis outside quotes. -/
def Dangling (n : Nat) (cs : List Char) : Prop :=
  ∃ pre gaps post, cs = pre ++ (separators gaps ++ ')' :: post) ∧
    openQuote none pre = none ∧ gaps.length = n ∧ ∀ gap ∈ gaps, ∀ c ∈ gap, isBlank c = true

/-- The number of separators at the start of a text, if there are only blanks around them and a
closing parenthesis follows. -/
def separatorsNext : List Char → Option Nat
  | [] => none
  | c :: rest =>
    if isBlank c then separatorsNext rest
    else if c = ',' then (separatorsNext rest).map (· + 1)
    else if c = ')' then some 0
    else none

theorem isBlank_comma : isBlank ',' = false := by
  decide

theorem isBlank_paren : isBlank ')' = false := by
  decide

theorem separatorsNext_cons (c : Char) (rest : List Char) : separatorsNext (c :: rest) =
    if isBlank c then separatorsNext rest
    else if c = ',' then (separatorsNext rest).map (· + 1)
    else if c = ')' then some 0
    else none :=
  rfl

theorem separatorsNext_blank (h : isBlank c = true) :
    separatorsNext (c :: rest) = separatorsNext rest := by
  rw [separatorsNext_cons, if_pos h]

theorem separatorsNext_comma (rest : List Char) :
    separatorsNext (',' :: rest) = (separatorsNext rest).map (· + 1) := by
  simp [separatorsNext_cons, isBlank_comma]

theorem separatorsNext_other (blank : isBlank c = false) (comma : c ≠ ',') :
    separatorsNext (c :: rest) = if c = ')' then some 0 else none := by
  simp [separatorsNext_cons, blank, comma]

theorem separatorsNext_blanks {blanks : List Char} (h : ∀ c ∈ blanks, isBlank c = true)
    (rest : List Char) : separatorsNext (blanks ++ rest) = separatorsNext rest := by
  induction blanks with
  | nil => rfl
  | cons c blanks ih =>
      rw [List.forall_mem_cons] at h
      rw [List.cons_append, separatorsNext_blank h.1, ih h.2]

theorem closesNext_iff : closesNext cs = true ↔ separatorsNext cs = some 0 := by
  induction cs with
  | nil => exact iff_of_false Bool.false_ne_true (by nofun)
  | cons c cs ih =>
      rw [closesNext_cons, separatorsNext_cons]
      by_cases blank : isBlank c = true
      · rw [if_pos blank, if_pos blank, ih]
      · rw [if_neg blank, if_neg blank]
        by_cases comma : c = ','
        · simp [comma]
        · by_cases paren : c = ')' <;> simp [comma, paren]

/-- A text starts with a run of separators if there are blanks in front of them. -/
theorem separatorsNext_eq_some : separatorsNext cs = some n ↔
    ∃ gap gaps post, cs = gap ++ (separators gaps ++ ')' :: post) ∧ gaps.length = n ∧
      ∀ gap' ∈ gap :: gaps, ∀ c ∈ gap', isBlank c = true := by
  constructor
  · intro h
    induction cs generalizing n with
    | nil => cases h
    | cons c cs ih =>
        by_cases blank : isBlank c = true
        · rw [separatorsNext_blank blank] at h
          obtain ⟨gap, gaps, post, rfl, length, blanks⟩ := ih h
          rw [List.forall_mem_cons] at blanks
          refine ⟨c :: gap, gaps, post, rfl, length, List.forall_mem_cons.2 ⟨?_, blanks.2⟩⟩
          exact List.forall_mem_cons.2 ⟨blank, blanks.1⟩
        rw [Bool.not_eq_true] at blank
        by_cases comma : c = ','
        · subst comma
          rw [separatorsNext_comma] at h
          obtain ⟨m, hm, rfl⟩ := Option.map_eq_some_iff.1 h
          obtain ⟨gap, gaps, post, rfl, length, blanks⟩ := ih hm
          refine ⟨[], gap :: gaps, post, ?_, by simp [length],
            List.forall_mem_cons.2 ⟨by simp, blanks⟩⟩
          simp [separators]
        · rw [separatorsNext_other blank comma] at h
          split at h
          case isTrue paren =>
            exact ⟨[], [], cs, by simp [separators, paren], by simpa using h, by simp⟩
          case isFalse => cases h
  · rintro ⟨gap, gaps, post, rfl, rfl, blanks⟩
    rw [List.forall_mem_cons] at blanks
    rw [separatorsNext_blanks blanks.1]
    induction gaps with
    | nil => exact separatorsNext_other isBlank_paren (by decide)
    | cons gap' gaps ih =>
        rw [List.forall_mem_cons] at blanks
        have later := ih ⟨blanks.1, blanks.2.2⟩
        rw [separators_cons, List.cons_append, List.append_assoc, separatorsNext_comma,
          separatorsNext_blanks blanks.2.1, later]
        rfl

/-! ## Runs in a text read from left to right -/

/-- Whether a separator outside quotes is followed by some number of others in front of a closing
parenthesis, in a text that starts inside the given quote. -/
def DanglesFrom (quote : Option Char) (n : Nat) (cs : List Char) : Prop :=
  ∃ pre rest, cs = pre ++ ',' :: rest ∧ openQuote quote pre = none ∧ separatorsNext rest = some n

theorem dangling_iff : Dangling (n + 1) cs ↔ DanglesFrom none n cs := by
  constructor
  · rintro ⟨pre, gaps, post, rfl, outside, length, blanks⟩
    cases gaps with
    | nil => cases length
    | cons gap gaps =>
        refine ⟨pre, gap ++ (separators gaps ++ ')' :: post), by simp [separators_cons], outside, ?_⟩
        exact separatorsNext_eq_some.2 ⟨gap, gaps, post, rfl, by simpa using length, blanks⟩
  · rintro ⟨pre, rest, rfl, outside, next⟩
    obtain ⟨gap, gaps, post, rfl, length, blanks⟩ := separatorsNext_eq_some.1 next
    exact ⟨pre, gap :: gaps, post, by simp [separators_cons], outside, by simp [length], blanks⟩

@[simp] theorem not_danglesFrom_nil : ¬DanglesFrom quote n [] := by
  rintro ⟨pre, rest, same, -⟩
  simp at same

theorem danglesFrom_cons : DanglesFrom quote n (c :: rest) ↔
    (quote = none ∧ c = ',' ∧ separatorsNext rest = some n) ∨
      DanglesFrom (quoteBehind quote c) n rest := by
  constructor
  · rintro ⟨pre, behind, same, outside, next⟩
    cases pre with
    | nil =>
        obtain ⟨rfl, rfl⟩ := List.cons.inj same
        exact .inl ⟨outside, rfl, next⟩
    | cons d pre =>
        obtain ⟨rfl, rfl⟩ := List.cons.inj same
        exact .inr ⟨pre, behind, rfl, outside, next⟩
  · rintro (⟨rfl, rfl, next⟩ | ⟨pre, behind, rfl, outside, next⟩)
    · exact ⟨[], rest, rfl, rfl, next⟩
    · exact ⟨c :: pre, behind, rfl, outside, next⟩

theorem quoteBehind_of_isBlank (blank : isBlank c = true) : quoteBehind none c = none := by
  have mark : ¬isQuoteMark c = true := fun mark => by
    rw [not_isBlank_of_isQuoteMark mark] at blank
    cases blank
  rw [quoteBehind, if_neg mark]

/-! ## The pass as a scan -/

/-- The scan copies a character unless it is a separator to be removed or a blank behind one. -/
theorem collapseFrom_copied (skipping : Bool) (blank : ¬(skipping && isBlank c) = true)
    (comma : ¬(c == ',' && closesNext rest) = true) :
    collapseFrom none skipping (c :: rest) = c :: collapseFrom (quoteBehind none c) false rest := by
  rw [collapseFrom, quoteBehind]
  by_cases mark : isQuoteMark c = true
  · rw [if_pos mark, if_pos mark]
  · rw [if_neg mark, if_neg mark, if_neg blank, if_neg comma]

theorem collapseFrom_removed {skipping : Bool}
    (removed : (skipping && isBlank c) = true ∨ c = ',' ∧ closesNext rest = true) :
    collapseFrom none skipping (c :: rest) = collapseFrom none true rest := by
  rw [collapseFrom]
  rcases removed with skip | ⟨rfl, next⟩
  · have mark : ¬isQuoteMark c = true := fun mark => by
      simp [not_isBlank_of_isQuoteMark mark] at skip
    rw [if_neg mark, if_pos skip]
  · simp [isQuoteMark, isBlank_comma, next]

theorem collapseFrom_some (q : Char) (skipping : Bool) (c : Char) (rest : List Char) :
    collapseFrom (some q) skipping (c :: rest) =
      c :: collapseFrom (quoteBehind (some q) c) false rest :=
  rfl

/-- A run of separators at the start of a text is one shorter after the scan. -/
theorem separatorsNext_collapseFrom (skipping : Bool) (cs : List Char) :
    separatorsNext (collapseFrom none skipping cs) = (separatorsNext cs).map Nat.pred := by
  induction cs generalizing skipping with
  | nil => rfl
  | cons c rest ih =>
      by_cases skip : (skipping && isBlank c) = true
      · rw [collapseFrom_removed (.inl skip), ih, separatorsNext_blank (Bool.and_eq_true_iff.1 skip).2]
      by_cases comma : (c == ',' && closesNext rest) = true
      · simp only [Bool.and_eq_true, beq_iff_eq] at comma
        obtain ⟨rfl, next⟩ := comma
        rw [collapseFrom_removed (.inr ⟨rfl, next⟩), ih, separatorsNext_comma, closesNext_iff.1 next]
        rfl
      rw [collapseFrom_copied skipping skip comma]
      by_cases blank : isBlank c = true
      · rw [quoteBehind_of_isBlank blank, separatorsNext_blank blank, separatorsNext_blank blank, ih]
      rw [Bool.not_eq_true] at blank
      by_cases separator : c = ','
      · subst separator
        have behind : quoteBehind none ',' = none := rfl
        rw [separatorsNext_comma, separatorsNext_comma, behind, ih]
        -- The number behind the separator is not zero, or the separator would be removed.
        cases next : separatorsNext rest with
        | none => rfl
        | some m =>
            cases m with
            | zero => simp [closesNext_iff.2 next] at comma
            | succ m => rfl
      · rw [separatorsNext_other blank separator, separatorsNext_other blank separator]
        split <;> rfl

/-- The scan takes one separator off every run. -/
theorem danglesFrom_collapseFrom (quote : Option Char) (skipping : Bool) (cs : List Char) :
    DanglesFrom quote n (collapseFrom quote skipping cs) ↔ DanglesFrom quote (n + 1) cs := by
  induction cs generalizing quote skipping with
  | nil =>
      cases quote <;> simp [collapseFrom]
  | cons c rest ih =>
      cases quote with
      | some q =>
          rw [collapseFrom_some, danglesFrom_cons, danglesFrom_cons, ih]
          simp
      | none =>
          by_cases skip : (skipping && isBlank c) = true
          · have blank := (Bool.and_eq_true_iff.1 skip).2
            have comma : c ≠ ',' := by
              rintro rfl
              rw [isBlank_comma] at blank
              cases blank
            rw [collapseFrom_removed (.inl skip), danglesFrom_cons, quoteBehind_of_isBlank blank, ih]
            simp [comma]
          by_cases comma : (c == ',' && closesNext rest) = true
          · simp only [Bool.and_eq_true, beq_iff_eq] at comma
            obtain ⟨rfl, next⟩ := comma
            have behind : quoteBehind none ',' = none := rfl
            rw [collapseFrom_removed (.inr ⟨rfl, next⟩), danglesFrom_cons, behind, ih,
              closesNext_iff.1 next]
            simp
          rw [collapseFrom_copied skipping skip comma, danglesFrom_cons, danglesFrom_cons, ih]
          refine or_congr_left (and_congr_right fun _ => and_congr_right fun separator => ?_)
          subst separator
          have behind : quoteBehind none ',' = none := rfl
          rw [behind, separatorsNext_collapseFrom]
          cases next : separatorsNext rest with
          | none => simp
          | some m =>
              cases m with
              | zero => simp [closesNext_iff.2 next] at comma
              | succ m => simp

theorem collapseFrom_eq_self (h : ¬DanglesFrom quote 0 cs) : collapseFrom quote false cs = cs := by
  induction cs generalizing quote with
  | nil => cases quote <;> rfl
  | cons c rest ih =>
      rw [danglesFrom_cons, not_or] at h
      cases quote with
      | some q => rw [collapseFrom_some, ih h.2]
      | none =>
          rw [collapseFrom_copied false (by simp), ih h.2]
          simp only [Bool.and_eq_true, beq_iff_eq]
          rintro ⟨separator, next⟩
          exact h.1 ⟨rfl, separator, closesNext_iff.1 next⟩

theorem length_collapseFrom_le (quote : Option Char) (skipping : Bool) (cs : List Char) :
    (collapseFrom quote skipping cs).length ≤ cs.length := by
  induction cs generalizing quote skipping with
  | nil => cases quote <;> simp [collapseFrom]
  | cons c rest ih =>
      cases quote with
      | some q => simpa [collapseFrom_some] using ih _ false
      | none =>
          rw [collapseFrom]
          split
          · simpa using ih _ false
          · split
            · exact (ih none true).trans (Nat.le_succ _)
            · split
              · exact (ih none true).trans (Nat.le_succ _)
              · simpa using ih none false

theorem length_collapseFrom_lt (skipping : Bool) (h : DanglesFrom quote 0 cs) :
    (collapseFrom quote skipping cs).length < cs.length := by
  induction cs generalizing quote skipping with
  | nil => exact absurd h not_danglesFrom_nil
  | cons c rest ih =>
      rw [danglesFrom_cons] at h
      rcases h with ⟨rfl, rfl, next⟩ | h
      · rw [collapseFrom_removed (.inr ⟨rfl, closesNext_iff.2 next⟩)]
        exact Nat.lt_succ_of_le (length_collapseFrom_le none true rest)
      · cases quote with
        | some q => simpa [collapseFrom_some] using ih false h
        | none =>
            by_cases removed : (skipping && isBlank c) = true ∨ c = ',' ∧ closesNext rest = true
            · rw [collapseFrom_removed removed]
              exact Nat.lt_succ_of_le (length_collapseFrom_le none true rest)
            · rw [not_or] at removed
              rw [collapseFrom_copied skipping removed.1 (by simpa using removed.2)]
              simpa using ih false h

/-! ## What is left of a run -/

/-- Collapsing separators takes one off every run in front of a closing parenthesis, so that one is
left dangling exactly where two were, and a second pass changes nothing exactly where none were. -/
theorem dangling_collapseSeparators (cs : List Char) :
    (∀ n, Dangling (n + 1) (collapseSeparators cs) ↔ Dangling (n + 2) cs) ∧
      (collapseSeparators (collapseSeparators cs) = collapseSeparators cs ↔ ¬Dangling 2 cs) := by
  have shortened (n : Nat) : Dangling (n + 1) (collapseSeparators cs) ↔ Dangling (n + 2) cs := by
    rw [dangling_iff, dangling_iff, collapseSeparators_eq_scan, danglesFrom_collapseFrom]
  refine ⟨shortened, ?_⟩
  rw [← shortened 0, dangling_iff, collapseSeparators_eq_scan (collapseSeparators cs)]
  constructor
  · intro same dangles
    have shorter := length_collapseFrom_lt false dangles
    rw [same] at shorter
    exact Nat.lt_irrefl _ shorter
  · exact collapseFrom_eq_self

/-- A call with two empty trailing operands keeps one of them, which only a second pass removes. -/
theorem dangling_two_operands :
    Dangling 1 (collapseSeparators "SUM(A1, , )".toList) ∧
      collapseSeparators (collapseSeparators "SUM(A1, , )".toList) ≠
        collapseSeparators "SUM(A1, , )".toList := by
  have left : collapseSeparators "SUM(A1, , )".toList = "SUM(A1, )".toList := by
    decide +kernel
  rw [left]
  refine ⟨⟨"SUM(A1".toList, [[' ']], [], rfl, rfl, rfl, ?_⟩, by decide +kernel⟩
  have blank : isBlank ' ' = true := by
    decide
  simpa using blank

end Spreadsheet.Formula
