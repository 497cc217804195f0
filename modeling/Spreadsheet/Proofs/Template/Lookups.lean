import Spreadsheet.Proofs.Formula.Tokens
import Spreadsheet.Proofs.Number.Exact
import Spreadsheet.Proofs.Template.Parsed

/-!
# Look-ups among tokens

The tokens of a text as a relation that follows the text from its start: spacing is skipped, and a
token takes its spelling.  The keys of the references of an expression can be read off its tokens, and
the text of a look-up is read as the tokens of one reference.
-/

namespace Spreadsheet.Template

open Spreadsheet.Text

/-! ## Spellings -/

/-- Whether a character can be part of a number. -/
def isNumeralChar (c : Char) : Bool :=
  isNumberChar c || c == 'e' || c == 'E' || c == '+' || c == '-'

theorem isNumeralChar_of_isNumberChar {c : Char} (h : isNumberChar c = true) :
    isNumeralChar c = true := by
  simp [isNumeralChar, h]

theorem isNumeralChar_of_isDigit {c : Char} (h : c.isDigit = true) : isNumeralChar c = true := by
  simp [isNumeralChar, isNumberChar, h]

theorem exponentSpelling_facts (cs : List Char) :
    exponentSpelling cs <+: cs ∧ ∀ c ∈ exponentSpelling cs, isNumeralChar c = true := by
  cases cs with
  | nil => exact ⟨List.nil_prefix, by simp [exponentSpelling]⟩
  | cons c rest =>
      by_cases exponent : c = 'e' ∨ c = 'E'
      swap
      · rw [exponentSpelling.eq_def]
        simp only [if_neg exponent]
        exact ⟨List.nil_prefix, by simp⟩
      have first : isNumeralChar c = true := by rcases exponent with rfl | rfl <;> rfl
      have taken (sign after : List Char) (signs : ∀ d ∈ sign, isNumeralChar d = true) :
          (c :: (sign ++ after.takeWhile Char.isDigit)) <+: c :: (sign ++ after) ∧
            ∀ d ∈ c :: (sign ++ after.takeWhile Char.isDigit), isNumeralChar d = true := by
        refine ⟨List.cons_prefix_cons.2 ⟨rfl, (List.prefix_append_right_inj sign).2
          (List.takeWhile_prefix _)⟩, fun d hd => ?_⟩
        rcases List.mem_cons.1 hd with rfl | hd
        · exact first
        · rcases List.mem_append.1 hd with hd | hd
          · exact signs d hd
          · exact isNumeralChar_of_isDigit (List.mem_takeWhile_imp hd)
      have unsigned := taken [] rest (by simp)
      rw [exponentSpelling.eq_def]
      simp only [if_pos exponent]
      cases rest with
      | nil => exact ⟨List.nil_prefix, by simp⟩
      | cons s tail =>
          by_cases signed : s = '+' ∨ s = '-'
          · simp only [if_pos signed]
            split
            · exact ⟨List.nil_prefix, by simp⟩
            · refine taken [s] tail fun d hd => ?_
              obtain rfl := List.mem_singleton.1 hd
              rcases signed with rfl | rfl <;> rfl
          · simp only [if_neg signed]
            split
            · exact ⟨List.nil_prefix, by simp⟩
            · exact unsigned

theorem numberSpelling_initial (cs : List Char) : numberSpelling cs <+: cs := by
  have front := (exponentSpelling_facts (cs.dropWhile isNumberChar)).1
  have whole := (List.prefix_append_right_inj (cs.takeWhile isNumberChar)).2 front
  rwa [List.takeWhile_append_dropWhile] at whole

theorem isNumeralChar_of_mem_numberSpelling {cs : List Char} {c : Char}
    (h : c ∈ numberSpelling cs) : isNumeralChar c = true := by
  rcases List.mem_append.1 h with h | h
  · exact isNumeralChar_of_isNumberChar (List.mem_takeWhile_imp h)
  · exact (exponentSpelling_facts _).2 c h

theorem length_numberSpelling_pos {c : Char} (hc : isNumberChar c = true) (rest : List Char) :
    0 < (numberSpelling (c :: rest)).length := by
  simp [numberSpelling, hc]

/-- What is known of a symbol: it is no name and no key, and its spelling has no quote, no
character of a name and no blank. -/
theorem symbolAt_facts {cs : List Char} {t : Token} {length : Nat}
    (h : symbolAt cs = some (t, length)) :
    0 < length ∧ keyOf t = none ∧ (∀ name, t ≠ .name name) ∧
      ∀ c ∈ cs.take length, c ≠ '"' ∧ isNameRest c = false ∧ isBlank c = false := by
  unfold symbolAt at h
  split at h <;> cases h <;> refine ⟨by decide, rfl, by simp, ?_⟩ <;> simp <;> decide

theorem length_rest_le {c : Char} {rest : List Char} {found : Lexeme}
    (h : lexeme c rest = .ok found) : found.rest.length ≤ rest.length := by
  simp only [lexeme] at h
  split at h
  · split at h
    · rename_i value spelling after tail
      cases h
      simp [← literalTail_append tail]
    · cases h
  · split at h
    · rename_i number
      split at h
      · cases h
        have := length_numberSpelling_pos number rest
        simp only [List.length_drop, List.length_cons]
        omega
      · cases h
    · split at h
      · rename_i start
        cases h
        rw [List.dropWhile_cons_of_pos (isNameRest_of_isNameStart start)]
        exact (List.dropWhile_suffix _).length_le
      · split at h
        · rename_i token length symbol
          cases h
          have := (symbolAt_facts symbol).1
          simp only [List.length_drop, List.length_cons]
          omega
        · cases h

/-! ## The tokens of a text -/

/-- Whether a text is read as the tokens. -/
inductive Lexes : List Char → List Token → Prop
  | nil : Lexes [] []
  | spacing {c : Char} {rest : List Char} {ts : List Token} (hc : isSpacing c = true)
      (more : Lexes rest ts) : Lexes (c :: rest) ts
  | token {c : Char} {rest : List Char} {found : Lexeme} {ts : List Token}
      (hc : isSpacing c = false) (hfound : lexeme c rest = .ok found) (more : Lexes found.rest ts) :
      Lexes (c :: rest) (found.token :: ts)

theorem Lexes.next {c : Char} {rest : List Char} {found : Lexeme} {ts : List Token}
    (h : Lexes (c :: rest) ts) (hc : isSpacing c = false) (hfound : lexeme c rest = .ok found) :
    ∃ us, ts = found.token :: us ∧ Lexes found.rest us := by
  cases h with
  | spacing spacing more =>
      rw [hc] at spacing
      cases spacing
  | token hc' hfound' more =>
      rw [hfound] at hfound'
      cases hfound'
      exact ⟨_, rfl, more⟩

theorem tokensFrom_lexes {fuel position : Nat} {cs : List Char} {ts : List Placed}
    (enough : cs.length ≤ fuel) (h : tokensFrom fuel position cs = .ok ts) :
    Lexes cs (bareTokens ts) := by
  induction fuel generalizing position cs ts with
  | zero =>
      obtain rfl := List.length_eq_zero_iff.1 (Nat.le_zero.1 enough)
      cases h
      exact .nil
  | succ fuel ih =>
      cases cs with
      | nil =>
          cases h
          exact .nil
      | cons c rest =>
          have short : rest.length ≤ fuel := Nat.le_of_succ_le_succ enough
          simp only [tokensFrom] at h
          split at h
          case isTrue spacing => exact .spacing spacing (ih short h)
          case isFalse visible =>
            split at h
            case h_1 => cases h
            case h_2 found hfound =>
              cases more : tokensFrom fuel (position + byteLength found.spelling) found.rest with
              | error fault => simp [more, Except.map] at h
              | ok us =>
                  obtain rfl : _ :: us = ts := by simpa [more, Except.map] using h
                  exact .token (by simpa using visible) hfound
                    (ih ((length_rest_le hfound).trans short) more)

theorem Lexes.of_tokens {cs : List Char} {ts : List Placed} (h : tokens cs = .ok ts) :
    Lexes cs (bareTokens ts) :=
  tokensFrom_lexes (le_refl _) h

/-! ## References among tokens -/

/-- Whether a name is that of a truth value. -/
def IsTruth (name : String) : Prop :=
  upperName name = "TRUE" ∨ upperName name = "FALSE"

/-- Whether the keys are those of the references that tokens hold.  No name but that of a truth
value stands in front of a bracket. -/
inductive Refers : List Token → List Key → Prop
  | nil : Refers [] []
  | lookup {t : Token} {key : Key} {ts : List Token} {keys : List Key} (ht : keyOf t = some key)
      (more : Refers ts keys) :
      Refers (.name reservedName :: .openBracket :: t :: .closeBracket :: ts) (key :: keys)
  | name {name : String} {ts : List Token} {keys : List Key}
      (plain : ts.head? = some .openBracket → IsTruth name) (more : Refers ts keys) :
      Refers (.name name :: ts) keys
  | other {t : Token} {ts : List Token} {keys : List Key} (ht : ∀ name, t ≠ .name name)
      (more : Refers ts keys) : Refers (t :: ts) keys

theorem name_ne_of_keyOf {t : Token} {key : Key} (h : keyOf t = some key) (name : String) :
    t ≠ .name name := by
  rintro rfl
  cases h

theorem refers_arguments {args : List (List Token × Expr)} {us : List Token} {keys : List Key}
    (h : ∀ arg ∈ args, ∀ us keys, Refers us keys → Refers (arg.1 ++ us) (arg.2.refs ++ keys))
    (more : Refers us keys) :
    Refers ([.comma].intercalate (args.map (·.1)) ++ us) (refsOfArgs (args.map (·.2)) ++ keys) := by
  induction args with
  | nil => exact more
  | cons arg args ih =>
      have rest := ih fun x hx => h x (List.mem_cons_of_mem _ hx)
      have first := h arg (by simp)
      cases args with
      | nil => simpa [refsOfArgs] using first us keys more
      | cons second args =>
          simp only [List.map_cons] at rest ⊢
          rw [List.intercalate_cons_cons, refsOfArgs, List.append_assoc, List.append_assoc,
            List.append_assoc]
          exact first _ _ (.other (by simp) rest)

theorem Derives.refers {l : Level} {ts : List Token} {e : Expr} (h : Derives l ts e)
    {us : List Token} {keys : List Key} (more : Refers us keys) :
    Refers (ts ++ us) (e.refs ++ keys) := by
  induction h generalizing us keys with
  | operand hl h ih => exact ih more
  | operation hl hop left right ihl ihr =>
      rw [Expr.refs, List.append_assoc, List.append_assoc]
      exact ihl (.other (by simp) (ihr more))
  | minus h ih => exact .other (by simp) (ih more)
  | plus h ih => exact .other (by simp) (ih more)
  | unsigned h ih => exact ih more
  | bare h ih => exact ih more
  | index h ht ih =>
      rw [Expr.refs, List.append_assoc]
      exact ih (.other (by simp) (.other (name_ne_of_keyOf ht) (.other (by simp) more)))
  | percent h ih =>
      rw [Expr.refs, List.append_assoc]
      exact ih (.other (by simp) more)
  | number x => exact .other (by simp) more
  | text s => exact .other (by simp) more
  | truth h => exact .name (fun _ => .inl h) more
  | falsity h => exact .name (fun _ => .inr h) more
  | ref ht => exact .lookup ht more
  | call name h ih =>
      rw [Expr.refs, List.cons_append, List.cons_append, List.append_assoc]
      refine .name (by simp) (.other (by simp) ?_)
      exact refers_arguments (fun arg harg us keys more => ih arg harg more) (.other (by simp) more)
  | parens h ih =>
      rw [List.cons_append, List.cons_append, List.append_assoc]
      exact .other (by simp) (ih (.other (by simp) more))

/-! ## Look-ups are read as references -/

section Reading

variable {c : Char} {rest text : List Char} {ts : List Token}

private theorem nameRest_ascii : ∀ k : Fin 128, isNameRest (Char.ofNat k) = true →
    isBlank (Char.ofNat k) = false ∧ isSpacing (Char.ofNat k) = false ∧
      (isNumberChar (Char.ofNat k) = true → isNameStart (Char.ofNat k) = false) := by
  decide

theorem isNameRest_facts (h : isNameRest c = true) :
    isBlank c = false ∧ isSpacing c = false ∧ (isNumberChar c = true → isNameStart c = false) := by
  obtain ⟨k, rfl⟩ := ofNat_toNat_of_isNameRest h
  exact nameRest_ascii k h

theorem isNameRest_of_isNumberChar (h : isNumberChar c = true) : isNameRest c = true := by
  simp only [isNumberChar, isNameRest, Char.isAlphanum, Bool.or_eq_true] at h ⊢
  rcases h with h | h
  · exact .inl (.inl (.inr h))
  · exact .inr h

theorem isNumberChar_of_isDigit (h : c.isDigit = true) : isNumberChar c = true := by
  simp [isNumberChar, h]

/-- A key between the brackets of its look-up. -/
def keySpelling : Key → List Char
  | .position i => Nat.toDigits 10 i
  | .name s => (quoteText s).toList

theorem lookupText_toList (key : Key) :
    (lookupText key).toList = reservedName.toList ++ '[' :: (keySpelling key ++ [']']) := by
  cases key <;> simp [lookupText, keySpelling]

/-- The digits of a position in front of a bracket are read as that position.  Beyond `2 ^ 53` the
double nearest to them may be another number. -/
theorem lexes_position {i : Nat} (high : i ≤ 2 ^ 53)
    (h : Lexes (Nat.toDigits 10 i ++ ']' :: rest) ts) :
    ∃ us, ts = .number (Number.ofNat i) :: us ∧ Lexes (']' :: rest) us := by
  have digits : ∀ c ∈ Nat.toDigits 10 i, isNumberChar c = true :=
    fun c hc => isNumberChar_of_isDigit (Number.isDigit_of_mem_toDigits hc)
  have reads := Number.read_toDigits high
  generalize hcs : Nat.toDigits 10 i = cs at h digits reads
  have spelling : numberSpelling (cs ++ ']' :: rest) = cs := by
    rw [numberSpelling, List.takeWhile_append_of_pos digits, List.dropWhile_append_of_pos digits]
    simp [exponentSpelling, isNumberChar]
  cases cs with
  | nil => exact absurd hcs Nat.toDigits_ne_nil
  | cons c cs =>
      have first := digits c (by simp)
      have visible := (isNameRest_facts (isNameRest_of_isNumberChar first)).2.1
      have quote : c ≠ '"' := by
        rintro rfl
        cases first
      rw [List.cons_append] at spelling
      have read : lexeme c (cs ++ ']' :: rest) =
          .ok ⟨.number (Number.ofNat i), c :: cs, ']' :: rest⟩ := by
        simp [lexeme, quote, first, spelling, reads]
      exact h.next visible read

theorem lexes_quoted {s : String} (h : Lexes ((quoteText s).toList ++ ']' :: rest) ts) :
    ∃ us, ts = .literal s :: us ∧ Lexes (']' :: rest) us := by
  have tail : literalTail (Formula.doubled '"' s.toList ++ '"' :: ']' :: rest) =
      some (s.toList, Formula.doubled '"' s.toList ++ ['"'], ']' :: rest) :=
    Formula.literalTail_doubled s.toList (by simp)
  have read : lexeme '"' (Formula.doubled '"' s.toList ++ '"' :: ']' :: rest) =
      .ok ⟨.literal s, '"' :: (Formula.doubled '"' s.toList ++ ['"']), ']' :: rest⟩ := by
    simp [lexeme, tail]
  rw [Formula.quoteText_append] at h
  exact h.next rfl read

theorem keyOf_position {i : Nat} (high : i ≤ 2 ^ 53) :
    keyOf (.number (Number.ofNat i)) = some (.position i) := by
  have small : min i (UInt64.size - 1) = i := by
    simp only [UInt64.size]
    omega
  simp only [keyOf, indexOf, Number.toNat?_ofNat high, Option.map_some, small]

theorem lexes_key {key : Key} (small : ∀ i, key = .position i → i ≤ 2 ^ 53)
    (h : Lexes (keySpelling key ++ ']' :: rest) ts) :
    ∃ t us, ts = t :: us ∧ keyOf t = some key ∧ Lexes (']' :: rest) us := by
  cases key with
  | position i =>
      obtain ⟨us, rfl, more⟩ := lexes_position (small i rfl) h
      exact ⟨_, us, rfl, keyOf_position (small i rfl), more⟩
  | name s =>
      obtain ⟨us, rfl, more⟩ := lexes_quoted h
      exact ⟨_, us, rfl, rfl, more⟩

theorem lookupText_append (key : Key) (text : List Char) : (lookupText key).toList ++ text =
    'r' :: 'e' :: 'f' :: 's' :: '[' :: (keySpelling key ++ ']' :: text) := by
  rw [lookupText_toList]
  simp [reservedName]

theorem lexeme_lookup (text : List Char) : lexeme 'r' ('e' :: 'f' :: 's' :: '[' :: text) =
    .ok ⟨.name reservedName, reservedName.toList, '[' :: text⟩ :=
  rfl

theorem lexes_lookup {key : Key} (small : ∀ i, key = .position i → i ≤ 2 ^ 53)
    (h : Lexes ((lookupText key).toList ++ text) ts) :
    ∃ t us, ts = .name reservedName :: .openBracket :: t :: .closeBracket :: us ∧
      keyOf t = some key ∧ Lexes text us := by
  rw [lookupText_append] at h
  obtain ⟨_, rfl, opening⟩ := h.next rfl (lexeme_lookup _)
  obtain ⟨_, rfl, inner⟩ :=
    opening.next rfl (show lexeme '[' _ = .ok ⟨.openBracket, ['['], _⟩ from rfl)
  obtain ⟨t, _, rfl, ht, closing⟩ := lexes_key small inner
  obtain ⟨us, rfl, more⟩ :=
    closing.next rfl (show lexeme ']' _ = .ok ⟨.closeBracket, [']'], _⟩ from rfl)
  exact ⟨t, us, rfl, ht, more⟩

end Reading

end Spreadsheet.Template
