import Spreadsheet.Proofs.Template.Expansion
import Spreadsheet.Proofs.Template.Lookups
import Spreadsheet.Proofs.Template.Naming

/-!
# The references of a prepared template

The references of the expression that a template is prepared to are its placeholders, in the same
order.  In one direction every look-up that was put in is read as one reference; in the other,
nothing that the template itself holds is read as a reference, since brackets in the place of an
index would have been a placeholder.
-/

namespace Spreadsheet.Template

open Spreadsheet.Text

/-! ## What the template itself holds -/

/-- Whether masked text starts outside of string literals. -/
def Outside (ms : List Masked) : Prop :=
  ∃ cs, maskFrom false cs = some ms

/-- Whether masked text starts inside a string literal. -/
def Inside (ms : List Masked) : Prop :=
  ∃ cs, maskFrom true cs = some ms

section Written

variable {before : Option Char} {m : Masked} {ms rest : List Masked} {keys : List Key}
  {text : List Char} {ts : List Token}

theorem Outside.uncons (h : Outside (m :: rest)) :
    m.hidden = false ∧ (m.char ≠ '"' → Outside rest) ∧ (m.char = '"' → Inside rest) := by
  obtain ⟨cs, h⟩ := h
  cases cs with
  | nil => cases h
  | cons c cs =>
      rw [maskFrom.eq_def] at h
      simp only at h
      split at h
      · rename_i quote
        obtain ⟨us, hus, same⟩ := Option.map_eq_some_iff.1 h
        cases same
        exact ⟨rfl, fun other => absurd quote other, fun _ => ⟨cs, hus⟩⟩
      · rename_i other
        obtain ⟨us, hus, same⟩ := Option.map_eq_some_iff.1 h
        cases same
        exact ⟨rfl, fun _ => ⟨cs, hus⟩, fun quote => absurd quote other⟩

/-- Behind a visible character that is no quote, the text is outside of literals. -/
theorem maskFrom_visible {inside : Bool} {cs : List Char} {front : List Masked}
    (h : maskFrom inside cs = some (front ++ m :: rest)) (visible : m.hidden = false)
    (quote : m.char ≠ '"') : Outside rest := by
  fun_induction maskFrom inside cs generalizing front with
  | case1 => simp at h
  | case2 => cases h
  | case3 cs ih =>
      obtain ⟨us, hus, same⟩ := Option.map_eq_some_iff.1 h
      rcases front with _ | ⟨first, _ | ⟨second, front⟩⟩
      · cases same
        cases visible
      · cases same
        cases visible
      · cases same
        exact ih hus
  | case4 inside cs _ ih =>
      obtain ⟨us, hus, same⟩ := Option.map_eq_some_iff.1 h
      cases front with
      | nil =>
          cases same
          exact absurd rfl quote
      | cons first front =>
          cases same
          exact ih hus
  | case5 inside c cs _ other ih =>
      obtain ⟨us, hus, same⟩ := Option.map_eq_some_iff.1 h
      cases front with
      | nil =>
          cases same
          exact ⟨cs, visible ▸ hus⟩
      | cons first front =>
          cases same
          exact ih hus

theorem Outside.after {inner after : List Masked} (h : Outside ms) (run : Bracketed ms inner after) :
    Outside after := by
  obtain ⟨cs, h⟩ := h
  rw [run.text, ← List.cons_append] at h
  exact maskFrom_visible h rfl (by decide)

theorem Inside.cases (h : Inside ms) :
    (∃ rest, ms = ⟨'"', true⟩ :: ⟨'"', true⟩ :: rest ∧ Inside rest) ∨
      (∃ rest, ms = ⟨'"', false⟩ :: rest ∧ Outside rest ∧ ∀ m ∈ rest.head?, m.char ≠ '"') ∨
      (∃ c rest, ms = ⟨c, true⟩ :: rest ∧ c ≠ '"' ∧ Inside rest) := by
  obtain ⟨cs, h⟩ := h
  unfold maskFrom at h
  split at h
  case h_1 same => cases same
  case h_2 => cases h
  case h_3 rest _ =>
      obtain ⟨us, hus, rfl⟩ := Option.map_eq_some_iff.1 h
      exact .inl ⟨us, rfl, rest, hus⟩
  case h_4 c rest single =>
      split at h
      · rename_i quote
        subst quote
        obtain ⟨us, hus, rfl⟩ := Option.map_eq_some_iff.1 h
        refine .inr (.inl ⟨us, rfl, ⟨rest, hus⟩, ?_⟩)
        rintro m hm quote
        have head : rest.head? = some '"' := by
          rw [← map_char_maskFrom hus, List.head?_map, hm]
          exact congrArg some quote
        obtain ⟨tail, rfl⟩ := List.head?_eq_some_iff.1 head
        exact single tail rfl rfl rfl
      · rename_i other
        obtain ⟨us, hus, rfl⟩ := Option.map_eq_some_iff.1 h
        exact .inr (.inr ⟨c, us, rfl, other, rest, hus⟩)

/-- A character that no look-up starts with is one of the template. -/
theorem Expands.uncons {c : Char} (h : Expands before ms keys (c :: text)) (other : c ≠ 'r') :
    ∃ m rest, ms = m :: rest ∧ m.char = c ∧ Expands (some m.shown) rest keys text ∧
      (indexesAfter before = false → ∀ inner after, ¬Bracketed ms inner after) := by
  generalize whole : c :: text = text' at h
  cases h with
  | nil => cases whole
  | lookup run opens hkey more =>
      rw [lookupText_append] at whole
      obtain ⟨rfl, -⟩ := List.cons.inj whole
      exact absurd rfl other
  | @char _ m rest _ _ plain more =>
      cases whole
      exact ⟨m, rest, rfl, rfl, more, plain⟩

/-- A masked character that opens no run is a character of the text. -/
theorem Expands.cons {rest : List Masked} (h : Expands before (m :: rest) keys text)
    (other : m ≠ ⟨'[', false⟩) :
    ∃ text', text = m.char :: text' ∧ Expands (some m.shown) rest keys text' := by
  generalize whole : m :: rest = ms at h
  cases h with
  | nil => cases whole
  | lookup run opens hkey more =>
      rw [run.text] at whole
      exact absurd (List.cons.inj whole).1 other
  | char plain more =>
      cases whole
      exact ⟨_, rfl, more⟩

/-- Characters that neither start a look-up nor delimit a literal are characters of the template
outside of literals. -/
theorem Expands.skip {spelling : List Char} (h : Expands before ms keys (spelling ++ text))
    (out : Outside ms) (plain : ∀ c ∈ spelling, c ≠ 'r' ∧ c ≠ '"') :
    ∃ used rest before', ms = used ++ rest ∧ used.map Masked.shown = spelling ∧ Outside rest ∧
      Expands before' rest keys text ∧ (before' = before ∨ ∃ c ∈ spelling, before' = some c) := by
  induction spelling generalizing before ms with
  | nil => exact ⟨[], ms, before, rfl, rfl, out, h, .inl rfl⟩
  | cons c spelling ih =>
      obtain ⟨letter, quote⟩ := plain c (by simp)
      obtain ⟨m, rest, rfl, rfl, more, -⟩ := h.uncons letter
      obtain ⟨visible, outside, -⟩ := out.uncons
      have shown : m.shown = m.char := by simp [Masked.shown, visible]
      obtain ⟨used, rest, before', rfl, rfl, out, expands, last⟩ :=
        ih more (outside quote) fun d hd => plain d (List.mem_cons_of_mem _ hd)
      refine ⟨m :: used, rest, before', rfl, by simp [shown], out, expands, .inr ?_⟩
      rcases last with rfl | ⟨d, hd, rfl⟩
      · exact ⟨m.char, by simp, by rw [shown]⟩
      · exact ⟨d, List.mem_cons_of_mem _ hd, rfl⟩

/-- The rest of a literal is hidden in the template, up to its closing quote. -/
theorem Expands.skipLiteral {value spelling after : List Char}
    (h : Expands before ms keys text) (starts : Inside ms)
    (tail : literalTail text = some (value, spelling, after)) :
    ∃ used rest before', ms = used ++ rest ∧ (∀ m ∈ used, m.IsPlain) ∧ Outside rest ∧
      Expands before' rest keys after := by
  have hidden (c : Char) : Masked.IsPlain ⟨c, true⟩ := by simp [Masked.IsPlain, Masked.shown]
  have doubled : (⟨'"', true⟩ : Masked) ≠ ⟨'[', false⟩ := by simp
  have closing : (⟨'"', false⟩ : Masked) ≠ ⟨'[', false⟩ := by simp
  fun_induction literalTail text generalizing before ms value spelling with
  | case1 => cases tail
  | case2 text ih =>
      simp only [Option.map_eq_some_iff, Prod.exists, Prod.mk.injEq] at tail
      obtain ⟨value, spelling, after, tail, -, -, rfl⟩ := tail
      rcases starts.cases with ⟨rest, rfl, inside⟩ | ⟨rest, rfl, out, single⟩ | ⟨c, rest, rfl, other, -⟩
      · obtain ⟨_, same, h⟩ := h.cons doubled
        cases same
        obtain ⟨_, same, h⟩ := h.cons doubled
        cases same
        obtain ⟨used, rest, before', rfl, plain, out, expands⟩ := ih h inside tail
        refine ⟨_ :: _ :: used, rest, before', rfl, ?_, out, expands⟩
        simpa using ⟨hidden _, plain⟩
      · obtain ⟨_, same, h⟩ := h.cons closing
        cases same
        obtain ⟨m, _, rfl, quote, -⟩ := h.uncons (by decide)
        exact absurd quote (single m rfl)
      · obtain ⟨_, same, -⟩ := h.cons (by simp)
        exact absurd (List.cons.inj same).1.symm other
  | case3 text single =>
      cases tail
      rcases starts.cases with ⟨rest, rfl, -⟩ | ⟨rest, rfl, out, -⟩ | ⟨c, rest, rfl, other, -⟩
      · obtain ⟨_, same, h⟩ := h.cons doubled
        cases same
        obtain ⟨_, rfl, -⟩ := h.cons doubled
        exact (single _ rfl rfl).elim
      · obtain ⟨_, same, h⟩ := h.cons closing
        cases same
        exact ⟨[_], rest, _, rfl, by simp [Masked.IsPlain, Masked.shown], out, h⟩
      · obtain ⟨_, same, -⟩ := h.cons (by simp)
        exact absurd (List.cons.inj same).1.symm other
  | case4 c text single other ih =>
      simp only [Option.map_eq_some_iff, Prod.exists, Prod.mk.injEq] at tail
      obtain ⟨value, spelling, after, tail, -, -, rfl⟩ := tail
      rcases starts.cases with ⟨rest, rfl, -⟩ | ⟨rest, rfl, -⟩ | ⟨d, rest, rfl, -, inside⟩
      · obtain ⟨_, same, -⟩ := h.cons doubled
        exact absurd (List.cons.inj same).1 other
      · obtain ⟨_, same, -⟩ := h.cons closing
        exact absurd (List.cons.inj same).1 other
      · obtain ⟨_, same, h⟩ := h.cons (by simp)
        cases same
        obtain ⟨used, rest, before', rfl, plain, out, expands⟩ := ih h inside tail
        refine ⟨_ :: used, rest, before', rfl, ?_, out, expands⟩
        simpa using ⟨hidden _, plain⟩

/-- The name that starts in a text either is one of the template, or a look-up runs into it. -/
theorem Expands.skipName (h : Expands before ms keys text) (out : Outside ms) :
    (∃ rest before', Outside rest ∧ Expands before' rest keys (text.dropWhile isNameRest) ∧
        (before' = before ∨ ∃ c, isNameRest c = true ∧ before' = some c)) ∨
      ∃ front tail, text.takeWhile isNameRest = front ++ reservedName.toList ∧
        text.dropWhile isNameRest = '[' :: tail := by
  induction h with
  | @nil before => exact .inl ⟨[], before, out, .nil, .inl rfl⟩
  | @lookup before ms inner rest key keys text run opens hkey more ih =>
      rw [lookupText_append]
      exact .inr ⟨[], _, rfl, rfl⟩
  | @char before m rest keys text other more ih =>
      by_cases name : isNameRest m.char = true
      · rw [List.dropWhile_cons_of_pos name, List.takeWhile_cons_of_pos name]
        obtain ⟨visible, outside, -⟩ := out.uncons
        have shown : m.shown = m.char := by simp [Masked.shown, visible]
        have quote : m.char ≠ '"' := by
          intro same
          rw [same] at name
          cases name
        rcases ih (outside quote) with ⟨rest, before', out, expands, last⟩ | ⟨front, tail, taken, left⟩
        · refine .inl ⟨rest, before', out, expands, .inr ?_⟩
          rcases last with rfl | last
          · exact ⟨m.char, name, by rw [shown]⟩
          · exact last
        · exact .inr ⟨m.char :: front, tail, by rw [taken]; rfl, left⟩
      · rw [List.dropWhile_cons_of_neg name]
        exact .inl ⟨m :: rest, before, out, .char other more, .inl rfl⟩

theorem Lexes.unspaced (h : Lexes text ts) :
    ∃ spaces text', text = spaces ++ text' ∧ (∀ c ∈ spaces, isSpacing c = true) ∧
      Lexes text' ts ∧ ∀ c ∈ text'.head?, isSpacing c = false := by
  induction h with
  | nil => exact ⟨[], [], rfl, by simp, .nil, by simp⟩
  | @spacing c rest ts hc more ih =>
      obtain ⟨spaces, text', rfl, all, lexes, visible⟩ := ih
      exact ⟨c :: spaces, text', rfl, by simpa using ⟨hc, all⟩, lexes, visible⟩
  | @token c rest found ts hc hfound more ih =>
      exact ⟨[], _, rfl, by simp, .token hc hfound more, by simpa using hc⟩

theorem isSpacing_facts {c : Char} (h : isSpacing c = true) :
    c ≠ 'r' ∧ c ≠ '"' ∧ indexesAfter (some c) = false ∧ c ∉ ['[', ']', '(', ')'] := by
  simp only [isSpacing, Bool.or_eq_true, beq_iff_eq] at h
  rcases h with ((rfl | rfl) | rfl) | rfl <;> decide

theorem Expands.unspaced (h : Expands before ms keys text) (out : Outside ms)
    (lexes : Lexes text ts) :
    ∃ blanks rest before' text', ms = blanks ++ rest ∧
      (∀ m ∈ blanks, m.IsPlain) ∧ Outside rest ∧ Expands before' rest keys text' ∧
      Lexes text' ts ∧ (∀ c ∈ text'.head?, isSpacing c = false) ∧
      (indexesAfter before = false → indexesAfter before' = false) := by
  obtain ⟨spaces, text', rfl, all, lexes, visible⟩ := lexes.unspaced
  obtain ⟨blanks, rest, before', rfl, shown, out, expands, last⟩ := h.skip out fun c hc =>
    ⟨(isSpacing_facts (all c hc)).1, (isSpacing_facts (all c hc)).2.1⟩
  refine ⟨blanks, rest, before', text', rfl, fun m hm => ?_, out, expands, lexes, visible, ?_⟩
  · exact (isSpacing_facts (all m.shown (shown ▸ List.mem_map_of_mem hm))).2.2.2
  · intro opens
    rcases last with rfl | ⟨c, hc, rfl⟩
    · exact opens
    · exact (isSpacing_facts (all c hc)).2.2.1

theorem isNumeralChar_facts {c : Char} (h : isNumeralChar c = true) :
    c ≠ 'r' ∧ c ≠ '"' ∧ c ∉ ['[', ']', '(', ')'] := by
  refine ⟨?_, ?_, ?_⟩
  · rintro rfl
    cases h
  · rintro rfl
    cases h
  · simp only [List.mem_cons, List.not_mem_nil, or_false, not_or]
    refine ⟨?_, ?_, ?_, ?_⟩ <;> rintro rfl <;> cases h

theorem symbolAt_bracket {cs : List Char} {t : Token} {length : Nat}
    (h : symbolAt cs = some (t, length)) :
    (t = .openBracket → length = 1 ∧ cs.head? = some '[') ∧
      (t = .closeBracket → length = 1 ∧ cs.head? = some ']') := by
  unfold symbolAt at h
  split at h <;> cases h <;> simp

theorem eq_cons_of_append {c : Char} {text spelling after : List Char}
    (h : spelling ++ after = c :: text) (nonempty : spelling ≠ []) :
    ∃ more, spelling = c :: more ∧ text = more ++ after := by
  obtain ⟨d, more, rfl⟩ := List.exists_cons_of_ne_nil nonempty
  cases h
  exact ⟨more, rfl, rfl⟩

/-- A token of a template: after some blanks it takes its first character and some more, none of
them part of a look-up. -/
structure Written (before : Option Char) (ms : List Masked) (t : Token) (blanks : List Masked)
    (first : Masked) (more rest : List Masked) : Prop where
  text : ms = blanks ++ first :: (more ++ rest)
  blank : ∀ m ∈ blanks, m.IsPlain
  notRun : indexesAfter before = false → ∀ inner after, ¬Bracketed (first :: (more ++ rest)) inner after
  outside : Outside rest
  key : keyOf t ≠ none → first.IsPlain ∧ ∀ m ∈ more, m.IsPlain
  openBracket : t = .openBracket → first = ⟨'[', false⟩ ∧ more = []
  closeBracket : t = .closeBracket → first = ⟨']', false⟩ ∧ more = []

theorem Expands.token {t : Token} (h : Expands before ms keys text) (out : Outside ms)
    (lexes : Lexes text (t :: ts)) (ht : ∀ name, t ≠ .name name) :
    ∃ blanks first more rest before' text', Written before ms t blanks first more rest ∧
      Expands before' rest keys text' ∧ Lexes text' ts := by
  obtain ⟨blanks, ms, before', text, rfl, blank, out, h, lexes, visible, opens⟩ :=
    h.unspaced out lexes
  cases h with
  | nil => cases lexes
  | lookup run opens hkey more =>
      rw [lookupText_append] at lexes
      obtain ⟨us, same, -⟩ := lexes.next rfl (lexeme_lookup _)
      exact absurd (List.cons.inj same).1 (ht _)
  | @char _ m rest _ text other expands =>
      have visible := visible m.char rfl
      obtain ⟨seen, outside, inside⟩ := out.uncons
      have shown : m.shown = m.char := by simp [Masked.shown, seen]
      have notRun : indexesAfter before = false → ∀ inner after, ¬Bracketed (m :: rest) inner after :=
        fun first => other (opens first)
      cases lexes with
      | spacing spacing =>
          rw [visible] at spacing
          cases spacing
      | @token _ _ found _ hc hfound lexes =>
      simp only [lexeme] at hfound
      split at hfound
      case isTrue quote =>
        split at hfound
        case h_2 => cases hfound
        case h_1 value spelling after tail =>
          cases hfound
          obtain ⟨used, rest, last, rfl, plain, out, expands⟩ :=
            expands.skipLiteral (inside quote) tail
          refine ⟨blanks, m, used, rest, last, after, ⟨rfl, blank, notRun, out, fun _ => ⟨?_, plain⟩,
            by simp, by simp⟩, expands, lexes⟩
          simp [Masked.IsPlain, shown, quote]
      case isFalse quote =>
      split at hfound
      case isTrue number =>
        split at hfound
        case h_2 => cases hfound
        case h_1 x reads =>
          cases hfound
          have nonempty := List.ne_nil_of_length_pos (length_numberSpelling_pos number text)
          have numerals : ∀ c ∈ numberSpelling (m.char :: text), isNumeralChar c = true :=
            fun c => isNumeralChar_of_mem_numberSpelling
          have split := List.prefix_iff_eq_append.1 (numberSpelling_initial (m.char :: text))
          obtain ⟨spelling, same, after⟩ := eq_cons_of_append split nonempty
          rw [same] at numerals
          rw [after] at expands
          have chars := fun c hc => isNumeralChar_facts (numerals c (List.mem_cons_of_mem _ hc))
          obtain ⟨used, rest, last, rfl, spelled, out, expands, -⟩ := expands.skip (outside quote)
            fun c hc => ⟨(chars c hc).1, (chars c hc).2.1⟩
          refine ⟨blanks, m, used, rest, last, _, ⟨rfl, blank, notRun, out, fun _ => ⟨?_, ?_⟩,
            by simp, by simp⟩, expands, lexes⟩
          · rw [Masked.IsPlain, shown]
            exact (isNumeralChar_facts (numerals m.char (by simp))).2.2
          · intro d hd
            exact (chars d.shown (spelled ▸ List.mem_map_of_mem hd)).2.2
      case isFalse =>
      split at hfound
      case isTrue name =>
        cases hfound
        exact absurd rfl (ht _)
      case isFalse =>
        split at hfound
        case h_2 => cases hfound
        case h_1 t length symbol =>
          cases hfound
          obtain ⟨positive, noKey, -, chars⟩ := symbolAt_facts symbol
          obtain ⟨opening, closing⟩ := symbolAt_bracket symbol
          obtain ⟨more, same, after⟩ := eq_cons_of_append
            (List.take_append_drop length (m.char :: text)) (by simp; omega)
          rw [same] at chars
          rw [after] at expands
          have noLetter : ∀ c ∈ more, c ≠ 'r' := by
            rintro c hc rfl
            have name := (chars _ (List.mem_cons_of_mem _ hc)).2.1
            cases name
          obtain ⟨used, rest, last, rfl, spelled, out, expands, -⟩ := expands.skip (outside quote)
            fun c hc => ⟨noLetter c hc, (chars c (List.mem_cons_of_mem _ hc)).1⟩
          have single : length = 1 → used = [] := by
            rintro rfl
            have : more = [] := (List.cons.inj same).2.symm
            rw [this] at spelled
            exact List.map_eq_nil_iff.1 spelled
          refine ⟨blanks, m, used, rest, last, _, ⟨rfl, blank, notRun, out,
            fun key => absurd noKey key, fun ht => ?_, fun ht => ?_⟩, expands, lexes⟩
          · obtain ⟨one, head⟩ := opening ht
            exact ⟨Masked.eq_of_shown (shown.trans (Option.some.inj head)) (by decide), single one⟩
          · obtain ⟨one, head⟩ := closing ht
            exact ⟨Masked.eq_of_shown (shown.trans (Option.some.inj head)) (by decide), single one⟩

/-- A key between brackets that are no indexing is a run, so the template holds none. -/
theorem Expands.not_index {t : Token} (h : Expands before ms keys text) (out : Outside ms)
    (opens : indexesAfter before = false) (ht : keyOf t ≠ none) :
    ¬Lexes text (.openBracket :: t :: .closeBracket :: ts) := by
  intro lexes
  have noName : ∀ name, t ≠ .name name := by
    rintro name rfl
    exact ht rfl
  obtain ⟨_, first, more, rest, _, _, opening, expands, lexes⟩ := h.token out lexes (by simp)
  obtain ⟨front, second, others, rest, _, _, key, expands, lexes⟩ :=
    expands.token opening.outside lexes noName
  obtain ⟨behind, third, more', after, _, _, closing, -⟩ :=
    expands.token key.outside lexes (by simp)
  obtain ⟨rfl, rfl⟩ := opening.openBracket rfl
  obtain ⟨rfl, rfl⟩ := closing.closeBracket rfl
  obtain ⟨hsecond, hothers⟩ := key.key ht
  refine opening.notRun opens (front ++ second :: others ++ behind) after ⟨?_, ?_, by simp⟩
  · rw [key.text, closing.text]
    simp
  · simp only [List.mem_append, List.mem_cons]
    rintro m ((hm | rfl | hm) | hm)
    · exact key.blank m hm
    · exact hsecond
    · exact hothers m hm
    · exact closing.blank m hm

theorem lexeme_eq_name {c : Char} {found : Lexeme} {name : String}
    (h : lexeme c text = .ok found) (ht : found.token = .name name) :
    isNameStart c = true ∧ name = String.ofList ((c :: text).takeWhile isNameRest) ∧
      found.rest = (c :: text).dropWhile isNameRest := by
  simp only [lexeme] at h
  split at h
  · split at h
    · cases h
      cases ht
    · cases h
  · split at h
    · split at h
      · cases h
        cases ht
      · cases h
    · split at h
      · rename_i start
        cases h
        cases ht
        exact ⟨start, rfl, rfl⟩
      · split at h
        · rename_i symbol
          cases h
          exact absurd ht ((symbolAt_facts symbol).2.2.1 name)
        · cases h

theorem indexesAfter_of_isNameRest {c : Char} (h : isNameRest c = true) :
    indexesAfter (some c) = false := by
  simp only [indexesAfter, Option.any_some, Bool.or_eq_false_iff, beq_eq_false_iff_ne]
  refine ⟨⟨?_, ?_⟩, ?_⟩ <;> rintro rfl <;> cases h

/-- A name among the tokens of an expansion starts a look-up, or is one of the template, or is one
that a look-up runs into. -/
theorem Expands.name {name : String} (h : Expands before ms keys text) (out : Outside ms)
    (small : ∀ i, Key.position i ∈ keys → i ≤ 2 ^ 53) (reads : Lexes text (.name name :: ts)) :
    (∃ key keys' t us rest text', keys = key :: keys' ∧ name = reservedName ∧
        ts = .openBracket :: t :: .closeBracket :: us ∧ keyOf t = some key ∧ Outside rest ∧
        Expands (some ']') rest keys' text' ∧ Lexes text' us) ∨
      (∃ rest before' text', Outside rest ∧ indexesAfter before' = false ∧
        Expands before' rest keys text' ∧ Lexes text' ts) ∨
      ∃ front, front ≠ [] ∧ name = String.ofList (front ++ reservedName.toList) ∧
        ts.head? = some .openBracket := by
  obtain ⟨blanks, ms, before', text, rfl, blank, out, h, lexes, visible, -⟩ := h.unspaced out reads
  cases h with
  | nil => cases lexes
  | @lookup _ _ inner rest key keys text run opens hkey more =>
      obtain ⟨t, us, same, ht, behind⟩ := lexes_lookup
        (fun i hi => small i (hi ▸ List.mem_cons_self)) lexes
      cases same
      exact .inl ⟨key, keys, t, us, rest, text, rfl, rfl, rfl, ht, out.after run, more, behind⟩
  | @char _ m rest _ text other expands =>
      obtain ⟨seen, outside, -⟩ := out.uncons
      have shown : m.shown = m.char := by simp [Masked.shown, seen]
      generalize whole : Token.name name :: ts = all at lexes
      cases lexes with
      | spacing spacing =>
          rw [visible m.char rfl] at spacing
          cases spacing
      | @token _ _ found _ hc hfound more =>
          obtain ⟨ht, rfl⟩ := List.cons.inj whole
          obtain ⟨start, rfl, left⟩ := lexeme_eq_name hfound ht.symm
          have first := isNameRest_of_isNameStart start
          have quote : m.char ≠ '"' := by
            intro same
            rw [same] at start
            cases start
          rw [List.takeWhile_cons_of_pos first] at ht ⊢
          rw [left, List.dropWhile_cons_of_pos first] at more
          rcases expands.skipName (outside quote) with
            ⟨rest, last, out, expands, hlast⟩ | ⟨front, tail, taken, behind⟩
          · refine .inr (.inl ⟨rest, last, _, out, ?_, expands, more⟩)
            rcases hlast with rfl | ⟨c, hc, rfl⟩
            · rw [shown]
              exact indexesAfter_of_isNameRest first
            · exact indexesAfter_of_isNameRest hc
          · rw [behind] at more
            obtain ⟨us, rfl, -⟩ :=
              more.next rfl (show lexeme '[' _ = .ok ⟨.openBracket, ['['], _⟩ from rfl)
            exact .inr (.inr ⟨m.char :: front, by simp, by rw [taken]; rfl, rfl⟩)

theorem Expands.keys_of_nil (h : Expands before ms keys []) : keys = [] := by
  generalize whole : [] = text at h
  cases h with
  | nil => rfl
  | lookup run opens hkey more =>
      rw [lookupText_append] at whole
      cases whole
  | char plain more => cases whole

theorem not_isTruth_glued (front : List Char) :
    ¬IsTruth (String.ofList (front ++ reservedName.toList)) := by
  have last : (upperName (String.ofList (front ++ reservedName.toList))).toList.getLast? =
      some 'S' := by
    simp [upperName, reservedName]
  rintro (truth | falsity)
  · rw [truth] at last
    cases last
  · rw [falsity] at last
    cases last

/-- The references that the tokens of an expansion hold are its look-ups. -/
theorem Refers.keys_eq {found : List Key} (refers : Refers ts found)
    (h : Expands before ms keys text) (out : Outside ms)
    (small : ∀ i, Key.position i ∈ keys → i ≤ 2 ^ 53) (lexes : Lexes text ts) : found = keys := by
  induction refers generalizing before ms keys text with
  | nil =>
      obtain ⟨_, _, _, text', -, -, -, h, lexes, visible, -⟩ := h.unspaced out lexes
      cases lexes with
      | nil => exact h.keys_of_nil.symm
      | @spacing c rest _ hc more =>
          rw [visible c rfl] at hc
          cases hc
  | @lookup t key ts found ht refers ih =>
      rcases h.name out small lexes with
        ⟨key', keys, t', us, rest, text, rfl, -, same, ht', after, more, reads⟩ |
          ⟨rest, before', text, after, opens, more, reads⟩ | ⟨front, nonempty, same, -⟩
      · cases same
        obtain rfl := Option.some.inj (ht.symm.trans ht')
        rw [ih more after (fun i hi => small i (List.mem_cons_of_mem _ hi)) reads]
      · exact absurd reads (more.not_index after opens (by simp [ht]))
      · have := congrArg (·.toList.length) same
        simp [nonempty] at this
  | @name name ts found plain refers ih =>
      rcases h.name out small lexes with
        ⟨key', keys, t', us, rest, text, -, rfl, rfl, -⟩ |
          ⟨rest, before', text, out, opens, h, lexes⟩ | ⟨front, nonempty, rfl, head⟩
      · exact absurd (plain rfl) (not_isTruth_glued [])
      · exact ih h out small lexes
      · exact absurd (plain head) (not_isTruth_glued front)
  | other ht refers ih =>
      obtain ⟨_, _, _, _, _, _, written, h, lexes⟩ := h.token out lexes ht
      exact ih h written.outside small lexes

end Written

/-! ## Templates that are a single placeholder -/

section Single

variable {text : List Char} {ts : List Token}

theorem lexeme_of_isBlank {c : Char} {found : Lexeme} (hc : isBlank c = true) :
    lexeme c text ≠ .ok found := by
  intro h
  have noName {d : Char} (hd : isNameRest d = true) : isBlank d = false := (isNameRest_facts hd).1
  simp only [lexeme] at h
  split at h
  · rename_i quote
    subst quote
    exact absurd hc (by decide)
  · split at h
    · rename_i number
      rw [noName (isNameRest_of_isNumberChar number)] at hc
      cases hc
    · split at h
      · rename_i start
        rw [noName (isNameRest_of_isNameStart start)] at hc
        cases hc
      · split at h
        · rename_i length symbol
          obtain ⟨positive, -, -, chars⟩ := symbolAt_facts symbol
          obtain ⟨k, rfl⟩ : ∃ k, length = k + 1 := ⟨length - 1, by omega⟩
          rw [(chars c (by simp)).2.2] at hc
          cases hc
        · cases h

theorem Lexes.drop_blanks {blanks : List Char} (all : ∀ c ∈ blanks, isBlank c = true)
    (h : Lexes (blanks ++ text) ts) : Lexes text ts := by
  induction blanks with
  | nil => exact h
  | cons c blanks ih =>
      cases h with
      | spacing hc more => exact ih (fun d hd => all d (List.mem_cons_of_mem _ hd)) more
      | token hc hfound more => exact absurd hfound (lexeme_of_isBlank (all c (by simp)))

theorem derives_ref {t : Token} {key : Key} (ht : keyOf t = some key) :
    Derives .compare [.name reservedName, .openBracket, t, .closeBracket] (.ref key) :=
  .operand rfl (.operand rfl (.operand rfl (.operand rfl (.operand rfl
    (.unsigned (.bare (.ref ht)))))))

theorem expand_single {template : String} {found : List Placeholder}
    (h : isSingleReference template found = true) :
    ∃ p before after, found = [p] ∧ (∀ c ∈ before, isBlank c = true) ∧
      (∀ c ∈ after, isBlank c = true) ∧
      (expand template found).toList = before ++ ((lookupText p.key).toList ++ after) := by
  unfold isSingleReference at h
  split at h
  · rename_i p
    simp only [Bool.and_eq_true, beq_iff_eq] at h
    obtain ⟨start, width⟩ := h
    obtain ⟨after, tail, blanks⟩ := trim_split template.toList
    refine ⟨p, template.toList.takeWhile isBlank, after, rfl,
      fun c hc => List.mem_takeWhile_imp hc, blanks, ?_⟩
    have front : splitAtByte p.start template.toList =
        (template.toList.takeWhile isBlank, template.toList.dropWhile isBlank) := by
      rw [start]
      nth_rewrite 2 [← List.takeWhile_append_dropWhile (p := isBlank) (l := template.toList)]
      exact splitAtByte_byteLength _ _
    have back : splitAtByte (p.stop - p.start) (template.toList.dropWhile isBlank) =
        (trim template.toList, after) := by
      rw [width, tail]
      exact splitAtByte_byteLength _ _
    simp [expand, expandFrom, front, back]
  · cases h

theorem tokens_single {key : Key} {before after : List Char}
    (small : ∀ i, key = .position i → i ≤ 2 ^ 53) (hbefore : ∀ c ∈ before, isBlank c = true)
    (hafter : ∀ c ∈ after, isBlank c = true)
    (h : Lexes (before ++ ((lookupText key).toList ++ after)) ts) :
    Derives .compare ts (.ref key) := by
  obtain ⟨t, us, rfl, ht, behind⟩ := lexes_lookup small (h.drop_blanks hbefore)
  rw [← List.append_nil after] at behind
  cases behind.drop_blanks hafter
  exact derives_ref ht

end Single

/-! ## Prepared templates -/

theorem distinctKeys_from {keys seen : List Key} (nodup : seen.Nodup) :
    (keys.foldl (fun seen key => if seen.contains key then seen else seen ++ [key]) seen).Nodup ∧
      ∀ key, key ∈ keys.foldl (fun seen key => if seen.contains key then seen else seen ++ [key])
        seen ↔ key ∈ seen ∨ key ∈ keys := by
  induction keys generalizing seen with
  | nil => simpa using nodup
  | cons first keys ih =>
      rw [List.foldl_cons]
      by_cases known : first ∈ seen
      · rw [if_pos (List.contains_iff_mem.2 known)]
        obtain ⟨distinct, same⟩ := ih nodup
        refine ⟨distinct, fun key => (same key).trans ?_⟩
        rw [List.mem_cons]
        exact ⟨fun h => h.imp_right .inr, fun h => by
          rcases h with h | rfl | h
          · exact .inl h
          · exact .inl known
          · exact .inr h⟩
      · rw [if_neg (mt List.contains_iff_mem.1 known)]
        have longer : (seen ++ [first]).Nodup := by
          rw [← List.concat_eq_append]
          exact nodup.concat known
        obtain ⟨distinct, same⟩ := ih longer
        refine ⟨distinct, fun key => (same key).trans ?_⟩
        rw [List.mem_append, List.mem_singleton, List.mem_cons, or_assoc]

theorem mem_distinctKeys {key : Key} {keys : List Key} :
    key ∈ distinctKeys keys ↔ key ∈ keys :=
  ((distinctKeys_from List.nodup_nil).2 key).trans (by simp)

theorem nodup_distinctKeys (keys : List Key) : (distinctKeys keys).Nodup :=
  (distinctKeys_from List.nodup_nil).1

theorem prepare_ast_refs {template : String} {p : Prepared} (h : prepare template = .ok p)
    (small : ∀ i, Key.position i ∈ p.keys → i ≤ 2 ^ 53) {found : List Placeholder}
    (hfound : placeholders template = .ok found) : p.ast.refs = found.map (·.key) := by
  obtain ⟨found', hfound', parsed, hkeys, -⟩ := prepare_eq_ok h
  obtain rfl := Except.ok.inj (hfound.symm.trans hfound')
  obtain ⟨ms, hms, expands, -⟩ := placeholders_expands hfound
  obtain ⟨ts, hts, derived⟩ := parse_eq_ok_iff.1 parsed
  have refers := derived.refers .nil
  simp only [List.append_nil] at refers
  refine refers.keys_eq expands ⟨_, hms⟩ (fun i hi => small i ?_) (Lexes.of_tokens hts)
  rw [hkeys, mem_distinctKeys]
  exact hi

/-- Every reference of a prepared template is one of its keys. -/
theorem mem_keys_of_mem_refs {template : String} {p : Prepared} (h : prepare template = .ok p)
    (small : ∀ i, Key.position i ∈ p.keys → i ≤ 2 ^ 53) {key : Key} (hkey : key ∈ p.ast.refs) :
    key ∈ p.keys := by
  obtain ⟨found, hfound, -, hkeys, -⟩ := prepare_eq_ok h
  rw [prepare_ast_refs h small hfound] at hkey
  rw [hkeys, mem_distinctKeys]
  exact hkey

/-- The references of a prepared template are its placeholders, in order and with repeats, and the
keys are the same without repeats.  Each placeholder stands in the template outside of literals.  A
template that is a placeholder alone is prepared to that reference alone. -/
theorem prepare_refs {template : String} {p : Prepared} (h : prepare template = .ok p)
    (small : ∀ i, Key.position i ∈ p.keys → i ≤ 2 ^ 53) :
    ∃ found ms, placeholders template = .ok found ∧ mask template.toList = some ms ∧
      p.ast.refs = found.map (·.key) ∧ (∀ q ∈ found, q.StandsIn 0 ms) ∧
      p.keys = distinctKeys p.ast.refs ∧ p.keys.Nodup ∧ (∀ key, key ∈ p.keys ↔ key ∈ p.ast.refs) ∧
      (p.isRef = true → ∃ q, found = [q] ∧ p.ast = .ref q.key) := by
  obtain ⟨found, hfound, parsed, hkeys, single⟩ := prepare_eq_ok h
  obtain ⟨ms, hms, -, stands⟩ := placeholders_expands hfound
  have same := prepare_ast_refs h small hfound
  refine ⟨found, ms, hfound, hms, same, stands, by rw [hkeys, same], ?_, ?_, ?_⟩
  · rw [hkeys]
    exact nodup_distinctKeys _
  · intro key
    rw [hkeys, mem_distinctKeys, same]
  · intro alone
    rw [single] at alone
    obtain ⟨q, before, after, rfl, hbefore, hafter, text⟩ := expand_single alone
    refine ⟨q, rfl, ?_⟩
    obtain ⟨ts, hts, derived⟩ := parse_eq_ok_iff.1 parsed
    have lexes := Lexes.of_tokens hts
    rw [text] at lexes
    have only := tokens_single (fun i hi => small i (by simp [hkeys, mem_distinctKeys, hi])) hbefore
      hafter lexes
    exact Denotes.unique ⟨ts, hts, derived⟩ ⟨ts, hts, only⟩

theorem prepare_refs_sample : ∃ p, prepare "[a] & \"[b]\" & [0] & [a]" = .ok p ∧
    (∀ i, Key.position i ∈ p.keys → i ≤ 2 ^ 53) ∧
    p.ast.refs = [.name "a", .position 0, .name "a"] := by
  have keys : (prepare "[a] & \"[b]\" & [0] & [a]").toOption.map (·.keys) =
      some [.name "a", .position 0] := by decide +kernel
  have found : (placeholders "[a] & \"[b]\" & [0] & [a]").toOption.map (·.map (·.key)) =
      some [.name "a", .position 0, .name "a"] := by decide +kernel
  cases prepared : prepare "[a] & \"[b]\" & [0] & [a]" with
  | error fault =>
      rw [prepared] at keys
      cases keys
  | ok p =>
      rw [prepared] at keys
      have hkeys : p.keys = [.name "a", .position 0] := Option.some.inj keys
      have small : ∀ i, Key.position i ∈ p.keys → i ≤ 2 ^ 53 := by
        intro i hi
        rw [hkeys] at hi
        obtain rfl : i = 0 := by simpa using hi
        exact Nat.zero_le _
      obtain ⟨placed, ms, hplaced, -, refs, -⟩ := prepare_refs prepared small
      rw [hplaced] at found
      exact ⟨p, rfl, small, refs.trans (Option.some.inj found)⟩

end Spreadsheet.Template
