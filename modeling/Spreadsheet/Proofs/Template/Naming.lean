import Spreadsheet.Symbols
import Spreadsheet.Proofs.Template.Expansion

/-!
# Writing a name in a template

Which keys can be written as a placeholder.  The blanks and quotes around the text between brackets
are cut off, so a key with blanks at an end cannot be written at all; and a parenthesis ends the
placeholder unless it is part of a string literal, which is a question of how many quotes there are
before it.  A key is accepted for an element without regard to either.
-/

namespace Spreadsheet.Template

open Spreadsheet.Text

/-! ## Cutting off the ends -/

section Ends

variable {p : Char → Bool} {front cs : List Char}

theorem dropWhile_append_front (hfront : ∀ c ∈ front, p c = true)
    (first : ∀ c ∈ cs.head?, p c = false) : (front ++ cs).dropWhile p = cs := by
  rw [List.dropWhile_append_of_pos hfront]
  cases cs with
  | nil => rfl
  | cons c cs => exact List.dropWhile_cons_of_neg (by simp [first c rfl])

theorem not_of_mem_head?_dropWhile {c : Char} (h : c ∈ (cs.dropWhile p).head?) : p c = false := by
  have ends := List.head?_dropWhile_not p cs
  rwa [Option.mem_def.1 h] at ends

theorem trimBoth_append (front cs : List Char) {back : List Char}
    (hfront : ∀ c ∈ front, p c = true) (hback : ∀ c ∈ back, p c = true)
    (first : ∀ c ∈ cs.head?, p c = false) (last : ∀ c ∈ cs.getLast?, p c = false) :
    trimBoth p (front ++ (cs ++ back)) = cs := by
  by_cases some_text : cs = []
  · subst some_text
    have all : (front ++ back).dropWhile p = [] := by
      simpa [List.dropWhile_eq_nil_iff, or_imp, forall_and] using ⟨hfront, hback⟩
    rw [List.nil_append, trimBoth, all]
    rfl
  · have start : (front ++ (cs ++ back)).dropWhile p = cs ++ back :=
      dropWhile_append_front hfront (by rwa [List.head?_append_of_ne_nil _ some_text])
    have stop : (back.reverse ++ cs.reverse).dropWhile p = cs.reverse :=
      dropWhile_append_front (by simpa using hback) (by rwa [List.head?_reverse])
    rw [trimBoth, start, List.reverse_append, stop, List.reverse_reverse]

theorem trimBoth_starts (p : Char → Bool) (cs : List Char) : trimBoth p cs <+: cs.dropWhile p :=
  List.rdropWhile_prefix p (cs.dropWhile p)

theorem trimBoth_within (p : Char → Bool) (cs : List Char) : trimBoth p cs <:+: cs :=
  (trimBoth_starts p cs).isInfix.trans (List.dropWhile_suffix p).isInfix

theorem not_of_mem_head?_trimBoth {c : Char} (h : c ∈ (trimBoth p cs).head?) : p c = false := by
  obtain ⟨cut, same⟩ := trimBoth_starts p cs
  have kept : c ∈ (cs.dropWhile p).head? := by
    rw [← same, List.head?_append, Option.mem_def.1 h]
    rfl
  exact not_of_mem_head?_dropWhile kept

theorem not_of_mem_getLast?_trimBoth {c : Char} (h : c ∈ (trimBoth p cs).getLast?) : p c = false := by
  rw [trimBoth, List.getLast?_reverse] at h
  exact not_of_mem_head?_dropWhile h

theorem trimBoth_eq_self (first : ∀ c ∈ cs.head?, p c = false)
    (last : ∀ c ∈ cs.getLast?, p c = false) : trimBoth p cs = cs := by
  have none : ∀ c ∈ ([] : List Char), p c = true := by simp
  have kept := trimBoth_append [] cs none none first last
  rwa [List.nil_append, List.append_nil] at kept

theorem trimBoth_idem (p : Char → Bool) (cs : List Char) :
    trimBoth p (trimBoth p cs) = trimBoth p cs :=
  trimBoth_eq_self (fun _ => not_of_mem_head?_trimBoth) fun _ => not_of_mem_getLast?_trimBoth

theorem trim_split (cs : List Char) : ∃ blanks, cs.dropWhile isBlank = trim cs ++ blanks ∧
    ∀ c ∈ blanks, isBlank c = true := by
  refine ⟨((trimStart cs).reverse.takeWhile isBlank).reverse, ?_, ?_⟩
  · rw [trim, trimEnd, ← List.reverse_append, List.takeWhile_append_dropWhile, List.reverse_reverse]
    rfl
  · intro c hc
    exact List.mem_takeWhile_imp (List.mem_reverse.1 hc)

/-- A text is what is left of it after trimming, with blanks around it. -/
theorem exists_trim (cs : List Char) : ∃ front back, cs = front ++ (trim cs ++ back) ∧
    (∀ c ∈ front, isBlank c = true) ∧ ∀ c ∈ back, isBlank c = true := by
  obtain ⟨back, rest, blanks⟩ := trim_split cs
  refine ⟨cs.takeWhile isBlank, back, ?_, fun c hc => List.mem_takeWhile_imp hc, blanks⟩
  rw [← rest, List.takeWhile_append_dropWhile]

end Ends

/-! ## Parentheses in literals -/

/-- Whether a text that starts inside or outside of a string literal ends inside of one. -/
def insideAfter (inside : Bool) (cs : List Char) : Bool :=
  cs.foldl (fun inside c => if c = '"' then !inside else inside) inside

@[simp] theorem insideAfter_nil (inside : Bool) : insideAfter inside [] = inside :=
  rfl

@[simp] theorem insideAfter_cons (inside : Bool) (c : Char) (cs : List Char) :
    insideAfter inside (c :: cs) = insideAfter (if c = '"' then !inside else inside) cs :=
  rfl

@[simp] theorem insideAfter_append (inside : Bool) (front back : List Char) :
    insideAfter inside (front ++ back) = insideAfter (insideAfter inside front) back :=
  List.foldl_append

/-- Whether every parenthesis of a text that starts inside or outside of a string literal is part of
one. -/
def hidesParens : Bool → List Char → Bool
  | _, [] => true
  | inside, c :: cs =>
    (inside || (c != '(' && c != ')')) && hidesParens (if c = '"' then !inside else inside) cs

@[simp] theorem hidesParens_nil (inside : Bool) : hidesParens inside [] = true := by
  cases inside <;> rfl

@[simp] theorem hidesParens_cons (inside : Bool) (c : Char) (cs : List Char) :
    hidesParens inside (c :: cs) = ((inside || (c != '(' && c != ')')) &&
      hidesParens (if c = '"' then !inside else inside) cs) := by
  rw [hidesParens]

section Masks

variable {inside : Bool} {cs : List Char} {inner after : List Masked} {m : Masked}

theorem hidesParens_append {front back : List Char} : hidesParens inside (front ++ back) =
    (hidesParens inside front && hidesParens (insideAfter inside front) back) := by
  induction front generalizing inside with
  | nil => simp
  | cons c front ih => simp [ih, Bool.and_assoc]

/-- The mask hides a character, quotes apart, if the text before it ends inside a literal. -/
theorem hidden_eq_insideAfter (before : List Masked) (h : maskFrom inside cs = some (before ++ m :: after))
    (visible : m.char ≠ '"') : m.hidden = insideAfter inside (before.map (·.char)) := by
  fun_induction maskFrom inside cs generalizing before with
  | case1 => simp at h
  | case2 => cases h
  | case3 cs ih =>
      obtain ⟨us, hus, same⟩ := Option.map_eq_some_iff.1 h
      rcases before with _ | ⟨first, _ | ⟨second, before⟩⟩
      · cases same
        exact absurd rfl visible
      · cases same
        exact absurd rfl visible
      · cases same
        simpa using ih _ hus
  | case4 inside cs _ ih =>
      obtain ⟨us, hus, same⟩ := Option.map_eq_some_iff.1 h
      cases before with
      | nil =>
          cases same
          exact absurd rfl visible
      | cons first before =>
          cases same
          simpa using ih _ hus
  | case5 inside c cs _ other ih =>
      obtain ⟨us, hus, same⟩ := Option.map_eq_some_iff.1 h
      cases before with
      | nil =>
          cases same
          rfl
      | cons first before =>
          cases same
          simpa [other] using ih _ hus

theorem exists_maskFrom (closes : insideAfter inside cs = false) :
    ∃ ms, maskFrom inside cs = some ms := by
  fun_induction maskFrom inside cs with
  | case1 => exact ⟨[], rfl⟩
  | case2 => cases closes
  | case3 cs ih =>
      obtain ⟨ms, hms⟩ := ih (by simpa using closes)
      exact ⟨_, by rw [hms]; rfl⟩
  | case4 inside cs _ ih =>
      obtain ⟨ms, hms⟩ := ih (by simpa using closes)
      exact ⟨_, by rw [hms]; rfl⟩
  | case5 inside c cs _ other ih =>
      obtain ⟨ms, hms⟩ := ih (by simpa [other] using closes)
      exact ⟨_, by rw [hms]; rfl⟩

theorem Masked.isPlain_iff (brackets : m.char ≠ '[' ∧ m.char ≠ ']') :
    m.IsPlain ↔ m.hidden = true ∨ m.char ≠ '(' ∧ m.char ≠ ')' := by
  cases hidden : m.hidden <;> simp [IsPlain, shown, hidden, brackets]

/-- A part without brackets is plain in a masked text exactly if the literals that are open before it
and in it hide its parentheses. -/
theorem plain_iff_hidesParens (before : List Masked)
    (masked : maskFrom inside cs = some (before ++ (inner ++ after)))
    (brackets : ∀ m ∈ inner, m.char ≠ '[' ∧ m.char ≠ ']') : (∀ m ∈ inner, m.IsPlain) ↔
      hidesParens (insideAfter inside (before.map (·.char))) (inner.map (·.char)) = true := by
  induction inner generalizing before with
  | nil => simp
  | cons m inner ih =>
      have rest := ih (before ++ [m]) (by simpa using masked) fun x hx =>
        brackets x (List.mem_cons_of_mem _ hx)
      rw [List.map_append, insideAfter_append] at rest
      simp only [List.forall_mem_cons, rest, Masked.isPlain_iff (brackets m (by simp)), List.map_cons,
        List.map_nil, insideAfter_cons, insideAfter_nil, hidesParens_cons, Bool.and_eq_true]
      refine and_congr ?_ Iff.rfl
      by_cases quote : m.char = '"'
      · simp [quote]
      · rw [hidden_eq_insideAfter before masked quote]
        simp

end Masks

/-! ## What a placeholder can name -/

/-- Whether the only placeholder of a text between brackets has a name as its key. -/
def Names (text : List Char) (key : String) : Prop :=
  ∃ p, placeholders (String.ofList ('[' :: (text ++ [']']))) = .ok [p] ∧ p.key = .name key

/-- Whether some text without brackets, put between brackets, is a placeholder of a name. -/
def Nameable (key : String) : Prop :=
  ∃ text : List Char, (∀ c ∈ text, c ≠ '[' ∧ c ≠ ']') ∧ Names text key

variable {text : List Char} {key : String}

/-- A placeholder is all of the text between the brackets. -/
theorem Names.inner (h : Names text key) (brackets : ∀ c ∈ text, c ≠ '[' ∧ c ≠ ']') :
    ∃ inner : List Masked, inner.map (·.char) = text ∧ (∀ m ∈ inner, m.IsPlain) ∧
      maskFrom false ('[' :: (text ++ [']'])) =
        some (⟨'[', false⟩ :: (inner ++ [⟨']', false⟩])) ∧
      readKey text = some (.name key) := by
  obtain ⟨p, found, hkey⟩ := h
  obtain ⟨ms, masked, -, stands⟩ := placeholders_expands found
  obtain ⟨front, run, inner, after, rfl, bracketed, -, read⟩ := stands p (by simp)
  rw [String.toList_ofList, mask] at masked
  have chars := map_char_maskFrom masked
  rw [bracketed.text] at masked chars
  have opens : front = [] := by
    cases front with
    | nil => rfl
    | cons m front =>
        simp only [List.map_append, List.map_cons, List.cons_append, List.cons.injEq] at chars
        have again : '[' ∈ text ++ [']'] := by simp [← chars.2]
        simp only [List.mem_append, List.mem_singleton, Char.reduceEq, or_false] at again
        exact absurd rfl (brackets _ again).1
  subst opens
  simp only [List.map_append, List.map_cons, List.nil_append, List.cons.injEq, true_and] at chars
  have closes : after = [] := by
    rcases List.eq_nil_or_concat after with rfl | ⟨more, m, rfl⟩
    · rfl
    · rw [List.concat_eq_append, List.map_append, ← List.cons_append, ← List.append_assoc] at chars
      have again : ']' ∈ text := by simp [← (List.append_inj' chars rfl).1]
      exact absurd rfl (brackets _ again).2
  subst closes
  have same : inner.map (·.char) = text := (List.append_inj' chars rfl).1
  exact ⟨inner, same, bracketed.plain, masked, by rw [← same, read, hkey]⟩

theorem readKey_eq_name (h : readKey text = some (.name key)) :
    trim (trimBoth isQuote (trim text)) = key.toList := by
  unfold readKey at h
  dsimp only at h
  split at h
  · cases h
  · split at h
    · cases h
    · cases h
      rw [String.toList_ofList]

theorem Names.trim_eq (h : Names text key) (brackets : ∀ c ∈ text, c ≠ '[' ∧ c ≠ ']') :
    trim key.toList = key.toList := by
  obtain ⟨-, -, -, -, read⟩ := h.inner brackets
  rw [← readKey_eq_name read]
  exact trimBoth_idem isBlank _

theorem Names.hidesParens (h : Names text key) (brackets : ∀ c ∈ text, c ≠ '[' ∧ c ≠ ']') :
    ∃ inside, hidesParens inside key.toList = true := by
  obtain ⟨inner, rfl, plain, masked, read⟩ := h.inner brackets
  have hides := (plain_iff_hidesParens [⟨'[', false⟩] masked
    fun m hm => brackets m.char (List.mem_map_of_mem hm)).1 plain
  obtain ⟨front, back, split⟩ : key.toList <:+: inner.map (·.char) := by
    rw [← readKey_eq_name read]
    exact ((trimBoth_within isBlank _).trans (trimBoth_within isQuote _)).trans
      (trimBoth_within isBlank _)
  rw [← split, hidesParens_append, hidesParens_append, Bool.and_eq_true, Bool.and_eq_true] at hides
  exact ⟨_, hides.1.2⟩

/-! ## Writing a name -/

/-- The quote that opens or closes a literal, or else one that is a plain character. -/
def quoteFor (literal : Bool) : Char :=
  if literal then '"' else '\''

/-- A name as it can be written: between quotes that hide its parentheses where they have to, with
blanks that keep the quotes apart from its own. -/
def spelling (inside : Bool) (name : List Char) : List Char :=
  quoteFor inside :: (' ' :: (name ++ [' ']) ++ [quoteFor (insideAfter inside name)])

theorem isQuote_quoteFor (literal : Bool) : isQuote (quoteFor literal) = true := by
  cases literal <;> rfl

theorem quoteFor_eq_iff {literal : Bool} : quoteFor literal = '"' ↔ literal = true := by
  cases literal <;> decide

theorem insideAfter_spelling (inside : Bool) (name : List Char) :
    insideAfter false (spelling inside name) = false := by
  cases state : insideAfter inside name <;> simp [spelling, quoteFor_eq_iff, state]

theorem hidesParens_spelling {inside : Bool} {name : List Char}
    (h : hidesParens inside name = true) : hidesParens false (spelling inside name) = true := by
  have quote (literal : Bool) : quoteFor literal ≠ '(' ∧ quoteFor literal ≠ ')' := by
    cases literal <;> decide
  simp [spelling, quoteFor_eq_iff, hidesParens_append, quote, h]

theorem isQuote_iff {c : Char} : isQuote c = true ↔ c = '\'' ∨ c = '"' := by
  simp [isQuote]

theorem isBlank_of_isQuote {c : Char} (h : isQuote c = true) : isBlank c = false := by
  rcases isQuote_iff.1 h with rfl | rfl <;> decide

theorem readNat_quoted {bound : Nat} {quote : Char} {cs : List Char} (h : isQuote quote = true) :
    Number.readNat bound (quote :: cs) = none := by
  rcases isQuote_iff.1 h with rfl | rfl <;> simp [Number.readNat]

theorem readKey_quoted {first last : Char} {name : List Char} (hfirst : isQuote first = true)
    (hlast : isQuote last = true) (bare : trim name = name) (some_name : name ≠ []) :
    readKey (first :: (' ' :: (name ++ [' ']) ++ [last])) = some (.name (String.ofList name)) := by
  have space : isQuote ' ' = false ∧ isBlank ' ' = true := by decide
  have whole : trim (first :: (' ' :: (name ++ [' ']) ++ [last])) =
      first :: (' ' :: (name ++ [' ']) ++ [last]) := by
    refine trimBoth_eq_self (by simpa using isBlank_of_isQuote hfirst) ?_
    rw [← List.cons_append, List.getLast?_concat]
    simpa using isBlank_of_isQuote hlast
  have unquoted : trimBoth isQuote (first :: (' ' :: (name ++ [' ']) ++ [last])) =
      ' ' :: (name ++ [' ']) := by
    refine trimBoth_append [first] (' ' :: (name ++ [' '])) (by simpa using hfirst)
      (by simpa using hlast) (by simpa using space.1) ?_
    rw [← List.cons_append, List.getLast?_concat]
    simpa using space.1
  have unspaced : trim (' ' :: (name ++ [' '])) = name :=
    trimBoth_append [' '] name (by simpa using space.2) (by simpa using space.2)
      (fun _ h => not_of_mem_head?_trimBoth (bare ▸ h))
      (fun _ h => not_of_mem_getLast?_trimBoth (bare ▸ h))
  unfold readKey
  rw [whole]
  dsimp only
  rw [readNat_quoted hfirst, unquoted, unspaced]
  cases name with
  | nil => exact absurd rfl some_name
  | cons c cs => rfl

theorem readKey_spelling {inside : Bool} (bare : trim key.toList = key.toList)
    (some_key : key.toList ≠ []) : readKey (spelling inside key.toList) = some (.name key) := by
  rw [spelling, readKey_quoted (isQuote_quoteFor _) (isQuote_quoteFor _) bare some_key,
    String.ofList_toList]

theorem unbalancedBracket_plain {opened : List Bracket} {inner : List Masked}
    (plain : ∀ m ∈ inner, m.IsPlain) (rest : List Char) :
    unbalancedBracket opened (inner.map Masked.shown ++ rest) = unbalancedBracket opened rest := by
  induction inner with
  | nil => rfl
  | cons m inner ih =>
      have here := plain m (by simp)
      have more := ih fun x hx => plain x (List.mem_cons_of_mem _ hx)
      simp only [Masked.IsPlain, List.mem_cons, not_or] at here
      rw [List.map_cons, List.cons_append, unbalancedBracket, more]
      all_goals simp_all

theorem isPrefixOf_of_not_mem {pattern cs : List Char} {c : Char} (hc : c ∈ pattern) (h : c ∉ cs) :
    pattern.isPrefixOf cs = false := by
  rw [← Bool.not_eq_true, List.isPrefixOf_iff_prefix]
  exact fun found => h (found.subset hc)

theorem indexesReserved_of_not_mem {before : Option Char} {cs : List Char} (h : '[' ∉ cs) :
    indexesReserved before cs = false := by
  induction cs generalizing before with
  | nil => rfl
  | cons c cs ih =>
      rw [indexesReserved, isPrefixOf_of_not_mem (by simp) h,
        ih fun later => h (List.mem_cons_of_mem _ later), Bool.and_false, Bool.false_or]

theorem hasEmptyBrackets_of_not_mem {before : Option Char} {cs : List Char} (h : '[' ∉ cs) :
    hasEmptyBrackets before cs = false := by
  induction cs generalizing before with
  | nil => rfl
  | cons c cs ih =>
      rw [hasEmptyBrackets, isPrefixOf_of_not_mem (by simp) h,
        ih fun later => h (List.mem_cons_of_mem _ later), Bool.and_false, Bool.false_or]

/-- The placeholders of a template in which nothing is wrong. -/
theorem placeholders_eq {template : String} {ms : List Masked}
    (masked : mask template.toList = some ms)
    (balanced : unbalancedBracket [] (ms.map Masked.shown) = none)
    (unreserved : indexesReserved none (ms.map Masked.shown) = false)
    (filled : hasEmptyBrackets none (ms.map Masked.shown) = false) :
    placeholders template = (keyRuns none 0 ms).mapM (Run.placeholder template) := by
  unfold placeholders
  rw [masked]
  simp only [balanced, unreserved, filled, Bool.false_eq_true, if_false]
  exact bind_pure _

/-- The mask of a text between brackets. -/
theorem maskFrom_brackets (closes : insideAfter false text = false) :
    ∃ inner : List Masked, inner.map (·.char) = text ∧ maskFrom false ('[' :: (text ++ [']'])) =
      some (⟨'[', false⟩ :: (inner ++ [⟨']', false⟩])) := by
  have closed : insideAfter false ('[' :: (text ++ [']'])) = false := by simp [closes]
  obtain ⟨ms, masked⟩ := exists_maskFrom closed
  obtain ⟨first, behind, rfl, opens, hbehind⟩ := List.map_eq_cons_iff.1 (map_char_maskFrom masked)
  obtain ⟨inner, rest, rfl, hinner, hrest⟩ := List.map_eq_append_iff.1 hbehind
  obtain ⟨last, nothing, rfl, stops, hnothing⟩ := List.map_eq_cons_iff.1 hrest
  obtain rfl := List.map_eq_nil_iff.1 hnothing
  have hfirst := hidden_eq_insideAfter [] masked (by rw [opens]; decide)
  have hlast := hidden_eq_insideAfter (first :: inner) masked (by rw [stops]; decide)
  obtain ⟨_, _⟩ := first
  obtain ⟨_, _⟩ := last
  dsimp only at opens stops hfirst hlast
  subst opens stops
  refine ⟨inner, hinner, ?_⟩
  rw [masked, hfirst, hlast]
  simp [hinner, closes]

/-- A text between brackets that hides its parentheses is one placeholder. -/
theorem names_of_hidesParens (brackets : ∀ c ∈ text, c ≠ '[' ∧ c ≠ ']') (some_text : text ≠ [])
    (closes : insideAfter false text = false) (hides : hidesParens false text = true)
    (read : readKey text = some (.name key)) : Names text key := by
  obtain ⟨inner, rfl, masked⟩ := maskFrom_brackets closes
  have plain : ∀ m ∈ inner, m.IsPlain := (plain_iff_hidesParens [⟨'[', false⟩] masked
    fun m hm => brackets m.char (List.mem_map_of_mem hm)).2 hides
  have bracketed : Bracketed (⟨'[', false⟩ :: (inner ++ [⟨']', false⟩])) inner [] :=
    ⟨rfl, plain, by simpa using some_text⟩
  have runs : keyRuns none 0 _ = _ := keyRuns_bracketed bracketed rfl
  have absent : '[' ∉ inner.map Masked.shown ++ [']'] := by
    simp only [List.mem_append, List.mem_map, List.mem_singleton, Char.reduceEq, or_false]
    rintro ⟨m, hm, shown⟩
    exact plain m hm (by simp [shown])
  have shown : (⟨'[', false⟩ :: (inner ++ [⟨']', false⟩]) : List Masked).map Masked.shown =
      '[' :: (inner.map Masked.shown ++ [']']) := by
    simp [Masked.shown]
  have balanced : unbalancedBracket [] ('[' :: (inner.map Masked.shown ++ [']'])) = none := by
    rw [unbalancedBracket, unbalancedBracket_plain plain]
    rfl
  have unreserved : indexesReserved none ('[' :: (inner.map Masked.shown ++ [']'])) = false := by
    rw [indexesReserved, indexesReserved_of_not_mem absent]
    rfl
  have filled : hasEmptyBrackets none ('[' :: (inner.map Masked.shown ++ [']'])) = false := by
    rw [hasEmptyBrackets, hasEmptyBrackets_of_not_mem absent]
    cases inner with
    | nil => exact absurd rfl some_text
    | cons m inner =>
        have here : m.shown ≠ ']' := fun same => plain m (by simp) (by simp [same])
        simp [List.isPrefixOf, here.symm]
  refine ⟨⟨.name key, 0, 0 + byteLength (runText inner)⟩, ?_, rfl⟩
  have placed (template : String) : Run.placeholder template
      ⟨inner.map (·.char), 0, 0 + byteLength (runText inner), none⟩ =
        .ok ⟨.name key, 0, 0 + byteLength (runText inner)⟩ := by
    rw [Run.placeholder, read]
    rfl
  rw [placeholders_eq (by rw [String.toList_ofList, mask, masked]) (by rw [shown, balanced])
    (by rw [shown, unreserved]) (by rw [shown, filled]), runs, List.mapM_cons, placed]
  rfl

theorem some_key_of_isValidKey (valid : isValidKey key = true) : key.toList ≠ [] := by
  intro empty
  obtain rfl := String.toList_eq_nil_iff.1 empty
  revert valid
  decide

theorem spelling_brackets (inside : Bool) (valid : isValidKey key = true) :
    ∀ c ∈ spelling inside key.toList, c ≠ '[' ∧ c ≠ ']' := by
  have free : ∀ c ∈ key.toList, c ≠ '[' ∧ c ≠ ']' := by
    simpa [isValidKey] using (Bool.and_eq_true_iff.1 valid).2
  have quote (literal : Bool) : quoteFor literal ≠ '[' ∧ quoteFor literal ≠ ']' := by
    cases literal <;> decide
  intro c hc
  simp only [spelling, List.cons_append, List.append_assoc, List.mem_cons, List.mem_append,
    List.not_mem_nil, or_false, false_or] at hc
  rcases hc with rfl | rfl | here | rfl | rfl
  · exact quote _
  · decide
  · exact free c here
  · decide
  · exact quote _

/-- Of the keys that are accepted, those can be written in a template that have no blanks at the ends
and whose parentheses can all be made part of string literals. -/
theorem nameable_iff (key : String) (valid : isValidKey key = true) : Nameable key ↔
    trim key.toList = key.toList ∧ ∃ inside, hidesParens inside key.toList = true := by
  constructor
  · rintro ⟨text, brackets, names⟩
    exact ⟨names.trim_eq brackets, names.hidesParens brackets⟩
  · rintro ⟨bare, inside, hides⟩
    have brackets := spelling_brackets inside valid
    exact ⟨spelling inside key.toList, brackets, names_of_hidesParens brackets (by simp [spelling])
      (insideAfter_spelling _ _) (hidesParens_spelling hides)
      (readKey_spelling bare (some_key_of_isValidKey valid))⟩

/-- A header with parentheses is written between double quotes. -/
theorem nameable_netSales : isValidKey "Net sales (USD)" = true ∧ Nameable "Net sales (USD)" := by
  have valid : isValidKey "Net sales (USD)" = true := rfl
  exact ⟨valid, (nameable_iff _ valid).2 ⟨rfl, true, rfl⟩⟩

/-- Neither a key that starts with a blank nor one that opens a parenthesis on either side of a quote
can be written, though both are accepted. -/
theorem not_nameable_accepted : isValidKey " a" = true ∧ ¬Nameable " a" ∧
    isValidKey "a(b\"c(d" = true ∧ ¬Nameable "a(b\"c(d" := by
  refine ⟨rfl, ?_, rfl, ?_⟩
  · rintro ⟨text, brackets, names⟩
    have bare := names.trim_eq brackets
    revert bare
    decide
  · rintro ⟨text, brackets, names⟩
    obtain ⟨inside, hides⟩ := names.hidesParens brackets
    revert hides
    cases inside <;> decide

end Spreadsheet.Template
