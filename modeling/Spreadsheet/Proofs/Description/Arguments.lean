import Spreadsheet.Description.Build
import Spreadsheet.Proofs.Template.Naming
import Spreadsheet.Proofs.Text.Nesting

/-!
# Arguments of a described call

Cutting the arguments of a call undoes joining them.  A text with closed quotes and paired brackets
whose commas all lie inside of these leaves the scanner as it finds it, so that the commas between
such texts are the only ones it cuts at.  Of any text whatever it leaves out commas and blanks only.
-/

namespace Spreadsheet

open Spreadsheet.Text Spreadsheet.Template

/-- The quotes of an argument and its brackets; one depth counts those of either shape. -/
def argumentNesting : Nesting where
  marks := (· == '"')
  opens c := c == '[' || c == '('
  closes c := c == ']' || c == ')'

/-- Whether every comma of a text that starts inside the given quote and some brackets deep is inside
quotes or brackets, and no bracket is closed that is not open. -/
structure Sealed (quote : Option Char) (depth : Int) (cs : List Char) : Prop where
  floor : ∀ front, front <+: cs → 0 ≤ depth + argumentNesting.depth quote front
  commas : ∀ front, front ++ [','] <+: cs →
    argumentNesting.quote quote front ≠ none ∨ 0 < depth + argumentNesting.depth quote front

/-- Whether a text can stand as an argument between commas. -/
structure IsArgument (cs : List Char) : Prop where
  level : argumentNesting.Level cs
  commas : ∀ front, front ++ [','] <+: cs →
    argumentNesting.quote none front ≠ none ∨ 0 < argumentNesting.depth none front
  trimmed : trim cs = cs
  nonempty : cs ≠ []

instance : DecidablePred IsArgument := fun cs =>
  decidable_of_iff (argumentNesting.Level cs ∧ (∀ front ∈ cs.inits, front ++ [','] <+: cs →
      argumentNesting.quote none front ≠ none ∨ 0 < argumentNesting.depth none front) ∧
      trim cs = cs ∧ cs ≠ [])
    ⟨fun ⟨level, commas, trimmed, nonempty⟩ => ⟨level, fun front h =>
        commas front ((List.mem_inits front cs).2 ((List.prefix_append front [',']).trans h)) h,
        trimmed, nonempty⟩,
      fun ⟨level, commas, trimmed, nonempty⟩ =>
        ⟨level, fun front _ => commas front, trimmed, nonempty⟩⟩

/-- Whether a text is an argument with blanks around it. -/
def Padded (arg text : List Char) : Prop :=
  ∃ front back, text = front ++ (arg ++ back) ∧
    (∀ c ∈ front, isBlank c = true) ∧ ∀ c ∈ back, isBlank c = true

/-- Whether some texts are parts of a text, in order and apart from each other, and what is left of it
are blanks and commas. -/
inductive Pieces : List Char → List (List Char) → Prop
  | rest {gap : List Char} (left : ∀ c ∈ gap, isBlank c = true ∨ c = ',') : Pieces gap []
  | next {gap piece rest : List Char} {pieces : List (List Char)}
      (left : ∀ c ∈ gap, isBlank c = true ∨ c = ',') (more : Pieces rest pieces) :
      Pieces (gap ++ (piece ++ rest)) (piece :: pieces)

variable {cs part rest arg text blanks : List Char} {quote : Option Char} {depth : Int} {c : Char}
  {args texts : List (List Char)}

/-! ## The scanner on an argument -/

theorem Sealed.uncons (h : Sealed quote depth (c :: cs)) :
    0 ≤ depth + argumentNesting.weight quote c ∧ (c = ',' → quote ≠ none ∨ 0 < depth) ∧
      Sealed (argumentNesting.behind quote c) (depth + argumentNesting.weight quote c) cs := by
  refine ⟨?_, ?_, ?_, ?_⟩
  · simpa using h.floor [c] (by simp)
  · rintro rfl
    simpa using h.commas [] (by simp)
  · intro front before
    have := h.floor (c :: front) (List.cons_prefix_cons.2 ⟨rfl, before⟩)
    rwa [Nesting.depth_cons, ← add_assoc] at this
  · intro front before
    have := h.commas (c :: front) (List.cons_prefix_cons.2 ⟨rfl, before⟩)
    rwa [Nesting.depth_cons, Nesting.quote_cons, ← add_assoc] at this

/-- The quote that is open where the scanner is, or is not, inside quotes. -/
def openMark (quoted : Bool) : Option Char :=
  if quoted then some '"' else none

theorem behind_openMark (quoted : Bool) (c : Char) : argumentNesting.behind (openMark quoted) c =
    openMark (if c = '"' then !quoted else quoted) := by
  cases quoted <;> by_cases mark : c = '"' <;> simp [openMark, Nesting.behind, argumentNesting, mark]

theorem weight_openMark (quoted : Bool) (c : Char) : argumentNesting.weight (openMark quoted) c =
    if quoted then 0 else if c = '[' ∨ c = '(' then 1 else if c = ']' ∨ c = ')' then -1 else 0 := by
  cases quoted <;> simp [openMark, Nesting.weight, argumentNesting]

/-- The scanner takes a text whose commas are inside quotes and brackets in one part. -/
theorem cutAtCommas_append {quoted : Bool} {depth : Nat} (h : Sealed (openMark quoted) depth cs)
    (part rest : List Char) : cutAtCommas part quoted depth (cs ++ rest) =
      cutAtCommas (cs.reverse ++ part) (argumentNesting.quote (openMark quoted) cs).isSome
        (depth + argumentNesting.depth (openMark quoted) cs).toNat rest := by
  induction cs generalizing quoted depth part with
  | nil => cases quoted <;> simp [openMark]
  | cons c cs ih =>
      obtain ⟨floor, comma, more⟩ := h.uncons
      rw [behind_openMark] at more
      rw [weight_openMark] at floor more
      rw [List.cons_append, cutAtCommas, Nesting.quote_cons, Nesting.depth_cons, behind_openMark,
        weight_openMark, ← add_assoc, List.reverse_cons, List.append_assoc, List.singleton_append]
      cases quoted with
      | true =>
          by_cases mark : c = '"'
          · simpa [mark] using @ih false depth (by simpa [mark] using more) (c :: part)
          · simpa [mark] using @ih true depth (by simpa [mark] using more) (c :: part)
      | false =>
          by_cases mark : c = '"'
          · simpa [mark] using @ih true depth (by simpa [mark] using more) (c :: part)
          by_cases opens : c = '[' ∨ c = '('
          · have deeper : ((depth + 1 : Nat) : Int) = depth + 1 := rfl
            have step := @ih false (depth + 1)
              (by simpa [mark, opens] using more) (c :: part)
            simpa [mark, opens] using step
          by_cases closes : c = ']' ∨ c = ')'
          · simp only [Bool.false_eq_true, if_false, opens, closes, if_true] at floor
            have outer : ((depth - 1 : Nat) : Int) = depth + -1 := by omega
            have step := @ih false (depth - 1)
              (by simpa [mark, opens, closes, outer] using more) (c :: part)
            simpa [mark, opens, closes, outer] using step
          have inside : ¬(depth = 0 ∧ c = ',') := by
            rintro ⟨rfl, separator⟩
            simpa [openMark] using comma separator
          have step := @ih false depth (by simpa [mark, opens, closes] using more) (c :: part)
          simpa [mark, opens, closes, inside] using step

/-! ## Joining and cutting -/

theorem not_mem_of_isBlank {d : Char} (visible : isBlank d = false)
    (hblanks : ∀ c ∈ blanks, isBlank c = true) : d ∉ blanks := by
  intro hd
  rw [hblanks d hd] at visible
  cases visible

theorem unmarked_blanks (hblanks : ∀ c ∈ blanks, isBlank c = true) :
    ∀ c ∈ blanks, argumentNesting.marks c = false ∧ argumentNesting.opens c = false ∧
      argumentNesting.closes c = false := by
  intro c hc
  have other (d : Char) (visible : isBlank d = false) : c ≠ d := by
    rintro rfl
    exact not_mem_of_isBlank visible hblanks hc
  simp [argumentNesting, other '"' (by decide), other '[' (by decide), other '(' (by decide),
    other ']' (by decide), other ')' (by decide)]

theorem cutAtCommas_blanks (hblanks : ∀ c ∈ blanks, isBlank c = true) (part rest : List Char) :
    cutAtCommas part false 0 (blanks ++ rest) =
      cutAtCommas (blanks.reverse ++ part) false 0 rest := by
  have unmarked := unmarked_blanks hblanks
  have flat (front : List Char) (before : front <+: blanks) :
      argumentNesting.depth none front = 0 :=
    Nesting.depth_unbracketed (fun c hc => (unmarked c (before.subset hc)).2.1)
      fun c hc => (unmarked c (before.subset hc)).2.2
  have closed : argumentNesting.quote none blanks = none :=
    Nesting.quote_unmarked (by simp) fun c hc => (unmarked c hc).1
  have sealed : Sealed (openMark false) ((0 : Nat) : Int) blanks := by
    refine ⟨fun front before => ?_, fun front before => ?_⟩
    · simp [openMark, flat front before]
    · have comma : ',' ∈ blanks := before.subset (by simp)
      exact absurd comma (not_mem_of_isBlank (by decide) hblanks)
  have step := cutAtCommas_append sealed part rest
  simpa [openMark, closed, flat blanks List.prefix_rfl] using step

theorem cutAtCommas_argument (h : IsArgument arg) (part rest : List Char) :
    cutAtCommas part false 0 (arg ++ rest) = cutAtCommas (arg.reverse ++ part) false 0 rest := by
  have sealed : Sealed (openMark false) ((0 : Nat) : Int) arg := by
    refine ⟨fun front before => ?_, fun front before => ?_⟩
    · simpa [openMark] using h.level.floor front before
    · simpa [openMark] using h.commas front before
  have step := cutAtCommas_append sealed part rest
  simpa [openMark, h.level.closed, h.level.total] using step

theorem cutAtCommas_padded (h : IsArgument arg) (padded : Padded arg text) (rest : List Char) :
    cutAtCommas [] false 0 (text ++ rest) = cutAtCommas text.reverse false 0 rest := by
  obtain ⟨front, back, rfl, hfront, hback⟩ := padded
  rw [List.append_assoc, cutAtCommas_blanks hfront, List.append_assoc, cutAtCommas_argument h,
    cutAtCommas_blanks hback]
  simp

theorem trim_padded (h : IsArgument arg) (padded : Padded arg text) : trim text = arg := by
  obtain ⟨front, back, rfl, hfront, hback⟩ := padded
  exact trimBoth_append front arg hfront hback
    (fun _ hc => not_of_mem_head?_trimBoth (h.trimmed.symm ▸ hc))
    (fun _ hc => not_of_mem_getLast?_trimBoth (h.trimmed.symm ▸ hc))

/-- Of texts that can be arguments, joined by commas, the scanner finds each. -/
theorem cutAtCommas_joined (each : ∀ arg ∈ args, IsArgument arg)
    (spaced : List.Forall₂ Padded args texts) (some_text : texts ≠ []) :
    cutAtCommas [] false 0 ([','].intercalate texts) = texts := by
  induction spaced with
  | nil => exact absurd rfl some_text
  | @cons arg text args texts padded more ih =>
      rw [List.forall_mem_cons] at each
      cases texts with
      | nil =>
          have alone := cutAtCommas_padded each.1 padded []
          simpa [cutAtCommas] using alone
      | cons next texts =>
          rw [List.intercalate_cons_cons, List.append_assoc, cutAtCommas_padded each.1 padded,
            List.singleton_append]
          simpa [cutAtCommas] using ih each.2 (by simp)

theorem map_trim_padded (each : ∀ arg ∈ args, IsArgument arg)
    (spaced : List.Forall₂ Padded args texts) : texts.map trim = args := by
  induction spaced with
  | nil => rfl
  | cons padded more ih =>
      rw [List.forall_mem_cons] at each
      rw [List.map_cons, trim_padded each.1 padded, ih each.2]

/-! ## The pieces of any text -/

theorem cutAtCommas_ne_nil (part : List Char) (quoted : Bool) (depth : Nat) (cs : List Char) :
    cutAtCommas part quoted depth cs ≠ [] := by
  fun_induction cutAtCommas part quoted depth cs <;> simp_all

/-- Cutting at commas leaves out nothing but commas. -/
theorem intercalate_cutAtCommas (part : List Char) (quoted : Bool) (depth : Nat) (cs : List Char) :
    [','].intercalate (cutAtCommas part quoted depth cs) = part.reverse ++ cs := by
  fun_induction cutAtCommas part quoted depth cs with
  | case1 => simp
  | case5 part quoted depth c rest _ _ _ comma ih =>
      obtain ⟨next, texts, more⟩ :=
        List.exists_cons_of_ne_nil (cutAtCommas_ne_nil [] quoted depth rest)
      rw [more] at ih ⊢
      rw [List.intercalate_cons_cons, ih]
      simp_all
  | _ => simp_all

theorem Pieces.skip {pieces : List (List Char)} (h : Pieces cs pieces) {gap : List Char}
    (left : ∀ c ∈ gap, isBlank c = true ∨ c = ',') : Pieces (gap ++ cs) pieces := by
  have both {more : List Char} (others : ∀ c ∈ more, isBlank c = true ∨ c = ',') :
      ∀ c ∈ gap ++ more, isBlank c = true ∨ c = ',' := by
    intro c hc
    exact (List.mem_append.1 hc).elim (left c) (others c)
  cases h with
  | rest others => exact .rest (both others)
  | next others more =>
      rw [← List.append_assoc]
      exact .next (both others) more

/-- What is left of some texts after trimming, joined by commas, are pieces of them. -/
theorem pieces_trim (texts : List (List Char)) :
    Pieces ([','].intercalate texts) ((texts.map trim).filter (!·.isEmpty)) := by
  have step (text rest : List Char) {pieces : List (List Char)} (more : Pieces rest pieces) :
      Pieces (text ++ rest) (([trim text].filter (!·.isEmpty)) ++ pieces) := by
    obtain ⟨front, back, whole, hfront, hback⟩ := exists_trim text
    have behind := more.skip fun c hc => .inl (hback c hc)
    by_cases empty : trim text = []
    · have dropped : [trim text].filter (!·.isEmpty) = [] := by simp [empty]
      rw [dropped, whole, empty, List.nil_append, List.append_assoc]
      exact behind.skip fun c hc => .inl (hfront c hc)
    · have kept : [trim text].filter (!·.isEmpty) = [trim text] := by simp [empty]
      have piece : Pieces (front ++ (trim text ++ (back ++ rest))) (trim text :: pieces) :=
        .next (fun c hc => .inl (hfront c hc)) behind
      rw [← List.append_assoc, ← List.append_assoc, List.append_assoc front, ← whole] at piece
      rw [kept]
      exact piece
  induction texts with
  | nil => exact .rest (by simp)
  | cons text texts ih =>
      cases texts with
      | nil => simpa using step text [] ih
      | cons next texts =>
          have comma : ∀ c ∈ [','], isBlank c = true ∨ c = ',' := by simp
          have behind := step text _ (ih.skip comma)
          rw [List.intercalate_cons_cons, List.append_assoc, List.map_cons, List.filter_cons]
          by_cases empty : trim text = [] <;> simpa [empty] using behind

/-- Cutting undoes joining: texts that can be arguments are found again between the commas that join
them, whatever blanks are around them.  The arguments of any text whatever are trimmed parts of it, in
order and apart from each other, and only blanks and commas are left out. -/
theorem splitArguments_joined :
    (∀ args texts : List (List Char), (∀ arg ∈ args, IsArgument arg) →
        List.Forall₂ Padded args texts → splitArguments ([','].intercalate texts) = args) ∧
      ∀ cs, Pieces cs (splitArguments cs) ∧ ∀ arg ∈ splitArguments cs, arg ≠ [] ∧ trim arg = arg := by
  refine ⟨fun args texts each spaced => ?_, fun cs => ⟨?_, fun arg harg => ?_⟩⟩
  · have whole : ∀ arg ∈ args, (!arg.isEmpty) = true := fun arg harg => by
      simpa using (each arg harg).nonempty
    by_cases some_text : texts = []
    · subst some_text
      cases spaced
      decide
    · rw [splitArguments, cutAtCommas_joined each spaced some_text, map_trim_padded each spaced,
        List.filter_eq_self.2 whole]
  · have pieces := pieces_trim (cutAtCommas [] false 0 cs)
    rwa [intercalate_cutAtCommas] at pieces
  · simp only [splitArguments, List.mem_filter, List.mem_map] at harg
    obtain ⟨⟨text, -, rfl⟩, nonempty⟩ := harg
    exact ⟨by simpa using nonempty, trimBoth_idem isBlank text⟩

/-- A nested call, a literal with a doubled quote and a parenthesis, and a number. -/
theorem splitArguments_joined_nested :
    splitArguments ([','].intercalate
        [" MAX([a, b], (c))".toList, "\"x, (\"\"y\"\t".toList, "  3 ".toList]) =
      ["MAX([a, b], (c))".toList, "\"x, (\"\"y\"".toList, "3".toList] := by
  refine splitArguments_joined.1 _ _ (by decide +kernel) ?_
  have space : isBlank ' ' = true := by decide
  have tab : isBlank '\t' = true := by decide
  refine .cons ⟨[' '], [], ?_⟩ (.cons ⟨[], ['\t'], ?_⟩ (.cons ⟨[' ', ' '], [' '], ?_⟩ .nil)) <;>
    simp [space, tab]

end Spreadsheet
