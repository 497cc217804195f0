import Mathlib
import Spreadsheet.Formula.CleanUp
import Spreadsheet.Formula.FutureName

/-!
# The clean-up passes, character by character

A pass cuts a formula text into quoted stretches and stretches outside and works on the latter one
by one.  Read from left to right with the open quote as its state it is a single scan: this module
gives the scan of each pass and proves that the two agree.  The scan is what proofs by induction on
a formula use, since a stretch does not end where a part of the formula does.
-/

namespace Spreadsheet.Formula

open Spreadsheet.Text Spreadsheet.Template

/-- Whether no character of a text opens a quoted part. -/
def QuoteFree (cs : List Char) : Prop :=
  ∀ c ∈ cs, isQuoteMark c = false

theorem quoteFree_nil : QuoteFree [] := by
  intro c hc
  cases hc

theorem quoteFree_cons {c : Char} {cs : List Char} :
    QuoteFree (c :: cs) ↔ isQuoteMark c = false ∧ QuoteFree cs := by
  simp [QuoteFree]

theorem isQuoteMark_iff {q : Char} : isQuoteMark q = true ↔ q = '"' ∨ q = '\'' := by
  simp [isQuoteMark]

/-! ## Stretches as a scan -/

section Stretches

variable (f : List Char → List Char)

/-- What a pass makes of a text that starts inside a quote. -/
private def throughQuote (q : Char) : List Char → List Char
  | [] => []
  | c :: rest => c :: if c = q then mapOutside f rest else throughQuote q rest

private theorem flatMap_stretchesFrom_some (q : Char) (held cs : List Char) :
    (stretchesFrom (some q) held cs).flatMap
        (fun s => if s.quoted then s.chars else f s.chars) =
      held.reverse ++ throughQuote f q cs := by
  induction cs generalizing held with
  | nil => simp [stretchesFrom, throughQuote]
  | cons c rest ih =>
      by_cases h : c = q
      · subst h
        simp [stretchesFrom, throughQuote, mapOutside, stretches]
      · simp [stretchesFrom, throughQuote, h, ih]

private theorem flatMap_stretchesFrom_none (held cs : List Char) (hcs : QuoteFree cs) (q : Char)
    (rest : List Char) (hq : isQuoteMark q = true) :
    (stretchesFrom none held (cs ++ q :: rest)).flatMap
        (fun s => if s.quoted then s.chars else f s.chars) =
      f (held.reverse ++ cs) ++ q :: throughQuote f q rest := by
  induction cs generalizing held with
  | nil =>
      have h := flatMap_stretchesFrom_some f q [q] rest
      simp [stretchesFrom, hq, h]
  | cons c cs ih =>
      rw [quoteFree_cons] at hcs
      simp [stretchesFrom, hcs.1, ih _ hcs.2]

theorem stretchesFrom_quoteFree (held cs : List Char) (hcs : QuoteFree cs) :
    stretchesFrom none held cs = [⟨false, held.reverse ++ cs⟩] := by
  induction cs generalizing held with
  | nil => simp [stretchesFrom]
  | cons c cs ih =>
      rw [quoteFree_cons] at hcs
      simp [stretchesFrom, hcs.1, ih _ hcs.2]

theorem mapOutside_quoteFree {cs : List Char} (hcs : QuoteFree cs) :
    mapOutside f cs = f cs := by
  simp [mapOutside, stretches, stretchesFrom_quoteFree [] cs hcs]

private theorem mapOutside_append_quote {cs : List Char} (hcs : QuoteFree cs) {q : Char}
    (hq : isQuoteMark q = true) (rest : List Char) :
    mapOutside f (cs ++ q :: rest) = f cs ++ q :: throughQuote f q rest := by
  simpa [mapOutside, stretches] using flatMap_stretchesFrom_none f [] cs hcs q rest hq

/-- What a pass makes of the text up to a quote mark does not depend on what is behind it. -/
theorem mapOutside_front (blank : f [] = []) {front : List Char} (free : QuoteFree front) {q : Char}
    (mark : isQuoteMark q = true) (rest : List Char) :
    mapOutside f (front ++ q :: rest) = f front ++ mapOutside f (q :: rest) := by
  have start := mapOutside_append_quote f quoteFree_nil mark rest
  rw [List.nil_append, blank, List.nil_append] at start
  rw [mapOutside_append_quote f free mark, start]

private theorem throughQuote_append {q : Char} {body : List Char} (inside : q ∉ body)
    (rest : List Char) : throughQuote f q (body ++ rest) = body ++ throughQuote f q rest := by
  induction body with
  | nil => rfl
  | cons c body ih =>
      rw [List.mem_cons, not_or] at inside
      have other : c ≠ q := fun same => inside.1 same.symm
      rw [List.cons_append, throughQuote, if_neg other, ih inside.2, List.cons_append]

/-- Up to the end of the first quoted part a pass depends on the text before it only. -/
theorem mapOutside_closed {front body : List Char} {q : Char} (free : QuoteFree front)
    (mark : isQuoteMark q = true) (inside : q ∉ body) (rest : List Char) :
    mapOutside f (front ++ q :: (body ++ q :: rest)) =
      f front ++ q :: (body ++ q :: mapOutside f rest) := by
  rw [mapOutside_append_quote f free mark, throughQuote_append f inside, throughQuote, if_pos rfl]

theorem mapOutside_unclosed {front body : List Char} {q : Char} (free : QuoteFree front)
    (mark : isQuoteMark q = true) (inside : q ∉ body) :
    mapOutside f (front ++ q :: body) = f front ++ q :: body := by
  have copied := throughQuote_append f inside []
  rw [List.append_nil, throughQuote, List.append_nil] at copied
  rw [mapOutside_append_quote f free mark, copied]

/-- A text has no quote mark at all, or a first one. -/
theorem quoteFree_or_split (cs : List Char) :
    QuoteFree cs ∨ ∃ before q rest, QuoteFree before ∧ isQuoteMark q = true ∧
      cs = before ++ q :: rest := by
  induction cs with
  | nil => exact .inl quoteFree_nil
  | cons c cs ih =>
      by_cases hc : isQuoteMark c = true
      · exact .inr ⟨[], c, cs, quoteFree_nil, hc, rfl⟩
      · rw [Bool.not_eq_true] at hc
        rcases ih with h | ⟨before, q, rest, hb, hq, rfl⟩
        · exact .inl (quoteFree_cons.2 ⟨hc, h⟩)
        · exact .inr ⟨c :: before, q, rest, quoteFree_cons.2 ⟨hc, hb⟩, hq, rfl⟩

/-- A scan that does outside quotes what a function does, and copies what is inside them, is the
pass of that function. -/
theorem mapOutside_eq_scan {outside : List Char → List Char} (inside : Char → List Char → List Char)
    (free : ∀ cs, QuoteFree cs → outside cs = f cs)
    (opening : ∀ cs q rest, QuoteFree cs → isQuoteMark q = true →
      outside (cs ++ q :: rest) = f cs ++ q :: inside q rest)
    (ending : ∀ q, inside q [] = [])
    (step : ∀ q c rest,
      inside q (c :: rest) = c :: if c = q then outside rest else inside q rest)
    (cs : List Char) : mapOutside f cs = outside cs := by
  suffices both : ∀ n, ∀ cs : List Char, cs.length ≤ n →
      mapOutside f cs = outside cs ∧ ∀ q, throughQuote f q cs = inside q cs from
    (both cs.length cs (Nat.le_refl _)).1
  intro n
  induction n with
  | zero =>
      intro cs hn
      obtain rfl : cs = [] := List.eq_nil_of_length_eq_zero (by omega)
      refine ⟨?_, fun q => (ending q).symm⟩
      rw [mapOutside_quoteFree f quoteFree_nil, free _ quoteFree_nil]
  | succ n ih =>
      intro cs hn
      constructor
      · rcases quoteFree_or_split cs with h | ⟨before, q, rest, hb, hq, rfl⟩
        · rw [mapOutside_quoteFree f h, free _ h]
        · have short : rest.length ≤ n := by
            simp at hn
            omega
          rw [mapOutside_append_quote f hb hq, opening _ _ _ hb hq, (ih rest short).2]
      · intro q
        cases cs with
        | nil => exact (ending q).symm
        | cons c rest =>
            have short : rest.length ≤ n := by simpa using hn
            rw [throughQuote, step, (ih rest short).1, (ih rest short).2]

end Stretches

/-! ## Separators before a closing parenthesis -/

/-- `collapseSeparators` as a scan. -/
def collapseFrom : Option Char → Bool → List Char → List Char
  | _, _, [] => []
  | some q, _, c :: rest => c :: collapseFrom (if c = q then none else some q) false rest
  | none, skipping, c :: rest =>
    if isQuoteMark c then c :: collapseFrom (some c) false rest
    else if skipping && isBlank c then collapseFrom none true rest
    else if c == ',' && closesNext rest then collapseFrom none true rest
    else c :: collapseFrom none false rest

theorem not_isBlank_of_isQuoteMark {q : Char} (hq : isQuoteMark q = true) : isBlank q = false := by
  rcases isQuoteMark_iff.1 hq with rfl | rfl <;> decide

theorem closesNext_cons (c : Char) (rest : List Char) :
    closesNext (c :: rest) = if isBlank c then closesNext rest else c == ')' := by
  by_cases hc : isBlank c <;> simp [closesNext, hc]

theorem closesNext_append_quote (cs : List Char) {q : Char} (hq : isQuoteMark q = true)
    (rest : List Char) : closesNext (cs ++ q :: rest) = closesNext cs := by
  induction cs with
  | nil =>
      rw [List.nil_append, closesNext_cons, not_isBlank_of_isQuoteMark hq]
      rcases isQuoteMark_iff.1 hq with rfl | rfl <;> rfl
  | cons c cs ih => rw [List.cons_append, closesNext_cons, closesNext_cons, ih]

theorem collapseFrom_quoteFree (skipping : Bool) {cs : List Char} (hcs : QuoteFree cs) :
    collapseFrom none skipping cs = collapseOutside skipping cs := by
  induction cs generalizing skipping with
  | nil => simp [collapseFrom, collapseOutside]
  | cons c cs ih =>
      rw [quoteFree_cons] at hcs
      simp [collapseFrom, collapseOutside, hcs.1, ih _ hcs.2]

theorem collapseFrom_append_quote (skipping : Bool) {cs : List Char} (hcs : QuoteFree cs) {q : Char}
    (hq : isQuoteMark q = true) (rest : List Char) :
    collapseFrom none skipping (cs ++ q :: rest) =
      collapseOutside skipping cs ++ q :: collapseFrom (some q) false rest := by
  induction cs generalizing skipping with
  | nil => simp [collapseFrom, collapseOutside, hq]
  | cons c cs ih =>
      rw [quoteFree_cons] at hcs
      have look := closesNext_append_quote cs hq rest
      simp only [List.cons_append, collapseFrom, collapseOutside, hcs.1, look, ih _ hcs.2]
      split
      · simp_all
      · split
        · rfl
        · split <;> rfl

theorem collapseSeparators_eq_scan (cs : List Char) :
    collapseSeparators cs = collapseFrom none false cs := by
  refine mapOutside_eq_scan _ (fun q => collapseFrom (some q) false) ?_ ?_ ?_ ?_ cs
  · intro cs hcs
    exact collapseFrom_quoteFree false hcs
  · intro cs q rest hcs hq
    exact collapseFrom_append_quote false hcs hq rest
  · intro q
    rfl
  · intro q c rest
    by_cases h : c = q <;> simp [collapseFrom, h]

/-! ## Marks of newer functions -/

/-- `markFutureFunctions` as a scan. -/
def markFrom (known : String → Bool) : Option Char → Option Char → Bool → List Char → List Char
  | _, _, _, [] => []
  | some q, _, _, c :: rest => c :: markFrom known (if c = q then none else some q) none false rest
  | none, before, inName, c :: rest =>
    if isQuoteMark c then c :: markFrom known (some c) none false rest
    else
      match if inName || before.any isWordChar then none else callName (c :: rest) with
      | some name =>
        (if needsMarker known name then futureMarker.toList else []) ++
          c :: markFrom known none (some c) true rest
      | none => c :: markFrom known none (some c) (inName && c != '(') rest

theorem not_isNameRest_of_isQuoteMark {q : Char} (hq : isQuoteMark q = true) :
    isNameRest q = false := by
  rcases isQuoteMark_iff.1 hq with rfl | rfl <;> rfl

theorem callName_append_quote (cs : List Char) {q : Char} (hq : isQuoteMark q = true)
    (c : Char) (rest : List Char) : callName (c :: (cs ++ q :: rest)) = callName (c :: cs) := by
  have hn := not_isNameRest_of_isQuoteMark hq
  have hp : (some q == some '(') = false := by
    rcases isQuoteMark_iff.1 hq with rfl | rfl <;> rfl
  have head : (((cs ++ q :: rest).dropWhile isNameRest).head? == some '(') =
      ((cs.dropWhile isNameRest).head? == some '(') := by
    rw [List.dropWhile_append]
    cases h : cs.dropWhile isNameRest with
    | nil => simp [hn, hp]
    | cons d ds => simp
  have spelled : (cs ++ q :: rest).takeWhile isNameRest = cs.takeWhile isNameRest := by
    rw [List.takeWhile_append]
    split
    · rename_i whole
      rw [List.takeWhile_cons, hn]
      simp [(List.takeWhile_sublist isNameRest).eq_of_length whole]
    · rfl
  simp only [callName, spelled, head]

theorem markFrom_quoteFree (known : String → Bool) (before : Option Char) (inName : Bool)
    {cs : List Char} (hcs : QuoteFree cs) :
    markFrom known none before inName cs = markOutside known before inName cs := by
  induction cs generalizing before inName with
  | nil => simp [markFrom, markOutside]
  | cons c cs ih =>
      rw [quoteFree_cons] at hcs
      simp only [markFrom, markOutside, hcs.1, Bool.false_eq_true, if_false]
      generalize (if (inName || before.any isWordChar) = true then none else callName (c :: cs)) =
        found
      cases found with
      | none => exact congrArg (c :: ·) (ih _ _ hcs.2)
      | some name => exact congrArg (_ ++ c :: ·) (ih _ _ hcs.2)

theorem markFrom_append_quote (known : String → Bool) (before : Option Char) (inName : Bool)
    {cs : List Char} (hcs : QuoteFree cs) {q : Char} (hq : isQuoteMark q = true)
    (rest : List Char) :
    markFrom known none before inName (cs ++ q :: rest) =
      markOutside known before inName cs ++ q :: markFrom known (some q) none false rest := by
  induction cs generalizing before inName with
  | nil => simp [markFrom, markOutside, hq]
  | cons c cs ih =>
      rw [quoteFree_cons] at hcs
      have look := callName_append_quote cs hq c rest
      simp only [List.cons_append, markFrom, markOutside, hcs.1, look, ih _ _ hcs.2,
        Bool.false_eq_true, if_false]
      generalize (if (inName || before.any isWordChar) = true then none else callName (c :: cs)) =
        found
      cases found <;> simp

theorem markFutureFunctions_eq_scan (known : String → Bool) (cs : List Char) :
    markFutureFunctions known cs = markFrom known none none false cs := by
  refine mapOutside_eq_scan _ (fun q => markFrom known (some q) none false) ?_ ?_ ?_ ?_ cs
  · intro cs hcs
    exact markFrom_quoteFree known none false hcs
  · intro cs q rest hcs hq
    exact markFrom_append_quote known none false hcs hq rest
  · intro q
    rfl
  · intro q c rest
    by_cases h : c = q <;> simp [markFrom, h]

end Spreadsheet.Formula
