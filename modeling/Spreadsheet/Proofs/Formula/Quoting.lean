import Spreadsheet.Proofs.Formula.Spelling

/-!
# Quoted parts

Where the quoted parts of a formula text are, said without regard to any pass over it: a part begins
at a quote mark outside the others and goes on to the next mark of the same kind, or to the end of the
text where there is none.  A pass that works on the text outside keeps the quoted parts, and what it
makes of a text behind a quoted part does not depend on what is before it.
-/

namespace Spreadsheet.Formula

open Spreadsheet.Template

variable {front body cs pre : List Char} {parts : List (List Char)} {q : Char}

/-! ## The open quote -/

/-- The quote that is open behind a character. -/
def quoteBehind (quote : Option Char) (c : Char) : Option Char :=
  match quote with
  | some q => if c = q then none else some q
  | none => if isQuoteMark c then some c else none

/-- The quote that is open at the end of a text. -/
def openQuote (quote : Option Char) (cs : List Char) : Option Char :=
  cs.foldl quoteBehind quote

@[simp] theorem openQuote_nil (quote : Option Char) : openQuote quote [] = quote :=
  rfl

@[simp] theorem openQuote_cons (quote : Option Char) (c : Char) (cs : List Char) :
    openQuote quote (c :: cs) = openQuote (quoteBehind quote c) cs :=
  rfl

@[simp] theorem openQuote_append (quote : Option Char) (front back : List Char) :
    openQuote quote (front ++ back) = openQuote (openQuote quote front) back :=
  List.foldl_append

/-- Only a quote mark opens a quote. -/
theorem isQuoteMark_of_mem_quoteBehind {quote : Option Char}
    (marks : ∀ q ∈ quote, isQuoteMark q = true) (c : Char) :
    ∀ q ∈ quoteBehind quote c, isQuoteMark q = true := by
  intro q hq
  cases quote with
  | some q' =>
      have same : c ≠ q' ∧ q' = q := by simpa [quoteBehind] using hq
      exact same.2 ▸ marks q' rfl
  | none =>
      have same : isQuoteMark c = true ∧ c = q := by simpa [quoteBehind] using hq
      exact same.2 ▸ same.1

theorem openQuote_quoteFree (free : QuoteFree cs) : openQuote none cs = none := by
  induction cs with
  | nil => rfl
  | cons c cs ih =>
      rw [quoteFree_cons] at free
      simp [quoteBehind, free.1, ih free.2]

theorem openQuote_inside (inside : q ∉ body) : openQuote (some q) body = some q := by
  induction body with
  | nil => rfl
  | cons c body ih =>
      rw [List.mem_cons, not_or] at inside
      have other : c ≠ q := fun same => inside.1 same.symm
      simp [quoteBehind, other, ih inside.2]

theorem openQuote_closed (free : QuoteFree front) (mark : isQuoteMark q = true)
    (inside : q ∉ body) (rest : List Char) :
    openQuote none (front ++ q :: (body ++ q :: rest)) = openQuote none rest := by
  simp [openQuote_quoteFree free, quoteBehind, mark, openQuote_inside inside]

theorem openQuote_unclosed (free : QuoteFree front) (mark : isQuoteMark q = true)
    (inside : q ∉ body) : openQuote none (front ++ q :: body) = some q := by
  simp [openQuote_quoteFree free, quoteBehind, mark, openQuote_inside inside]

/-! ## The quoted parts of a text -/

/-- Whether some texts are the quoted parts of a text, in order and with their quotes; the last one
may be without its closing quote. -/
inductive QuotedParts : List Char → List (List Char) → Prop
  | free {cs : List Char} (free : QuoteFree cs) : QuotedParts cs []
  | closed {front body rest : List Char} {q : Char} {parts : List (List Char)}
      (free : QuoteFree front) (mark : isQuoteMark q = true) (inside : q ∉ body)
      (more : QuotedParts rest parts) :
      QuotedParts (front ++ q :: (body ++ q :: rest)) ((q :: (body ++ [q])) :: parts)
  | unclosed {front body : List Char} {q : Char} (free : QuoteFree front)
      (mark : isQuoteMark q = true) (inside : q ∉ body) :
      QuotedParts (front ++ q :: body) [q :: body]

theorem exists_quotedParts (cs : List Char) : ∃ parts, QuotedParts cs parts := by
  induction h : cs.length using Nat.strongRecOn generalizing cs with
  | ind n ih =>
      rcases quoteFree_or_split cs with free | ⟨front, q, behind, free, mark, rfl⟩
      · exact ⟨[], .free free⟩
      by_cases closes : q ∈ behind
      · obtain ⟨body, rest, rfl, inside⟩ := List.eq_append_cons_of_mem closes
        have shorter : rest.length < n := by
          simp only [List.length_append, List.length_cons] at h
          omega
        obtain ⟨parts, more⟩ := ih rest.length shorter rest rfl
        exact ⟨_, .closed free mark inside more⟩
      · exact ⟨_, .unclosed free mark closes⟩

theorem stretchesFrom_inside (inside : q ∉ body) (held rest : List Char) :
    stretchesFrom (some q) held (body ++ q :: rest) =
        ⟨true, held.reverse ++ body ++ [q]⟩ :: stretches rest ∧
      stretchesFrom (some q) held body = [⟨true, held.reverse ++ body⟩] := by
  induction body generalizing held with
  | nil => simp [stretchesFrom, stretches]
  | cons c body ih =>
      rw [List.mem_cons, not_or] at inside
      have other : c ≠ q := fun same => inside.1 same.symm
      simpa [stretchesFrom, other] using ih inside.2 (c :: held)

theorem stretchesFrom_front (free : QuoteFree front) (mark : isQuoteMark q = true)
    (held behind : List Char) : stretchesFrom none held (front ++ q :: behind) =
      ⟨false, held.reverse ++ front⟩ :: stretchesFrom (some q) [q] behind := by
  induction front generalizing held with
  | nil => simp [stretchesFrom, mark]
  | cons c front ih =>
      rw [quoteFree_cons] at free
      simp [stretchesFrom, free.1, ih free.2]

/-- The quoted parts are the quoted stretches, so that a text has only one list of them. -/
theorem QuotedParts.eq_stretches (h : QuotedParts cs parts) :
    parts = ((stretches cs).filter (·.quoted)).map (·.chars) := by
  induction h with
  | free free => simp [stretches, stretchesFrom_quoteFree [] _ free]
  | closed free mark inside more ih =>
      rw [stretches, stretchesFrom_front free mark, (stretchesFrom_inside inside _ _).1]
      simp [← ih]
  | unclosed free mark inside =>
      rw [stretches, stretchesFrom_front free mark, (stretchesFrom_inside inside _ []).2]
      simp

theorem quotedParts_iff :
    QuotedParts cs parts ↔ parts = ((stretches cs).filter (·.quoted)).map (·.chars) := by
  refine ⟨QuotedParts.eq_stretches, ?_⟩
  rintro rfl
  obtain ⟨parts, h⟩ := exists_quotedParts cs
  rwa [← h.eq_stretches]

theorem existsUnique_quotedParts (cs : List Char) : ∃! parts, QuotedParts cs parts :=
  ⟨_, quotedParts_iff.2 rfl, fun _ h => h.eq_stretches⟩

/-! ## Passes over the text outside -/

section Pass

variable {f : List Char → List Char}

/-- A pass that brings no quote marks into the text outside keeps the quoted parts. -/
theorem QuotedParts.mapOutside (h : QuotedParts cs parts)
    (brings : ∀ cs, QuoteFree cs → QuoteFree (f cs)) : QuotedParts (mapOutside f cs) parts := by
  induction h with
  | free free =>
      rw [mapOutside_quoteFree f free]
      exact .free (brings _ free)
  | closed free mark inside more ih =>
      rw [mapOutside_closed f free mark inside]
      exact .closed (brings _ free) mark inside ih
  | unclosed free mark inside =>
      rw [mapOutside_unclosed f free mark inside]
      exact .unclosed (brings _ free) mark inside

variable (blank : f [] = [])

include blank

/-- What a pass makes of a text behind which a quoted part begins does not depend on that part. -/
theorem mapOutside_append (closed : openQuote none pre = none) (mark : isQuoteMark q = true)
    (behind : List Char) :
    mapOutside f (pre ++ q :: behind) = mapOutside f pre ++ mapOutside f (q :: behind) := by
  obtain ⟨parts, h⟩ := exists_quotedParts pre
  induction h with
  | free free =>
      rw [mapOutside_front f blank free mark, mapOutside_quoteFree f free]
  | closed free mark' inside more ih =>
      rw [openQuote_closed free mark' inside] at closed
      rw [List.append_assoc, List.cons_append, List.append_assoc, List.cons_append,
        mapOutside_closed f free mark' inside, mapOutside_closed f free mark' inside, ih closed]
      simp only [List.append_assoc, List.cons_append]
  | unclosed free mark' inside =>
      rw [openQuote_unclosed free mark' inside] at closed
      cases closed

/-- A string literal is kept, and the text behind it is outside quotes. -/
theorem mapOutside_doubled (mark : isQuoteMark q = true) (body post : List Char) :
    mapOutside f (q :: (doubled q body ++ q :: post)) =
      q :: (doubled q body ++ q :: mapOutside f post) := by
  have part {inside : List Char} (free : q ∉ inside) (rest : List Char) :
      mapOutside f (q :: (inside ++ q :: rest)) = q :: (inside ++ q :: mapOutside f rest) := by
    have closed := mapOutside_closed f quoteFree_nil mark free rest
    rwa [List.nil_append, blank, List.nil_append] at closed
  -- Up to the first quote in the literal lies one quoted part, behind it another literal.
  induction h : body.length using Nat.strongRecOn generalizing body with
  | ind n ih =>
      by_cases holds : q ∈ body
      · obtain ⟨front, rest, rfl, free⟩ := List.eq_append_cons_of_mem holds
        have shorter : rest.length < n := by
          simp only [List.length_append, List.length_cons] at h
          omega
        have split : doubled q (front ++ q :: rest) = front ++ q :: q :: doubled q rest := by
          rw [doubled_append, doubled_of_not_mem free, doubled_cons, if_pos rfl]
          rfl
        rw [split, List.append_assoc, List.cons_append, List.cons_append, part free,
          ih rest.length shorter rest rfl]
        simp only [List.append_assoc, List.cons_append]
      · rw [doubled_of_not_mem holds, part holds]

/-- A string literal in a text is kept as it is, and what is made of the text before and behind it is
what would be made of each of them alone. -/
theorem mapOutside_quoteText (closed : openQuote none pre = none) (s : String) (post : List Char) :
    mapOutside f (pre ++ ((quoteText s).toList ++ post)) =
      mapOutside f pre ++ ((quoteText s).toList ++ mapOutside f post) := by
  have mark : isQuoteMark '"' = true := rfl
  rw [quoteText_append, quoteText_append, mapOutside_append blank closed mark,
    mapOutside_doubled blank mark]

end Pass

end Spreadsheet.Formula
