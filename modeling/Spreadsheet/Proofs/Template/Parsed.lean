import Spreadsheet.Template.Prepared
import Spreadsheet.Proofs.Number.Unsigned
import Spreadsheet.Proofs.Template.Derivation
import Spreadsheet.Proofs.Template.Parts

/-!
# What a parsed expression consists of

Whatever text an expression is parsed from, its numbers have no sign, since a sign is an operator of
its own, and the functions that it calls have names in upper case.  Both hold of the tokens that are
read, and an expression takes them from its tokens.
-/

namespace Spreadsheet.Template

open Spreadsheet.Number (Unsigned)

/-! ## Names -/

/-- Whether a text can be the name of a function in a template. -/
def IsName (cs : List Char) : Prop :=
  (∀ c ∈ cs, isNameRest c = true) ∧ ∃ c ∈ cs.head?, isNameStart c = true

theorem isNameRest_of_isNameStart {c : Char} (h : isNameStart c = true) : isNameRest c = true := by
  simp only [isNameStart, isNameRest, Char.isAlphanum, Bool.or_eq_true] at h ⊢
  rcases h with h | h
  · exact .inl (.inl (.inl h))
  · exact .inl (.inr h)

theorem toNat_lt_of_isNameRest {c : Char} (h : isNameRest c = true) : c.toNat < 128 := by
  simp only [isNameRest, Char.isAlphanum, Char.isAlpha, Char.isUpper, Char.isLower, Char.isDigit,
    Bool.or_eq_true, Bool.and_eq_true, decide_eq_true_eq, beq_iff_eq] at h
  have value : c.toNat = c.val.toNat := rfl
  rcases h with (((h | h) | h) | rfl) | rfl
  · have := UInt32.le_iff_toNat_le.1 h.2
    simp at this
    omega
  · have := UInt32.le_iff_toNat_le.1 h.2
    simp at this
    omega
  · have := UInt32.le_iff_toNat_le.1 h.2
    simp at this
    omega
  · decide
  · decide

theorem ofNat_toNat_of_isNameRest {c : Char} (h : isNameRest c = true) :
    ∃ k : Fin 128, c = Char.ofNat k :=
  ⟨⟨c.toNat, toNat_lt_of_isNameRest h⟩, (Char.ofNat_toNat c).symm⟩

private theorem toUpper_ascii : ∀ k : Fin 128,
    (isNameRest (Char.ofNat k) = true → isNameRest (Char.ofNat k).toUpper = true) ∧
      (isNameStart (Char.ofNat k) = true → isNameStart (Char.ofNat k).toUpper = true) ∧
      (Char.ofNat k).toUpper.isLower = false := by
  decide

theorem isNameRest_toUpper {c : Char} (h : isNameRest c = true) : isNameRest c.toUpper = true := by
  obtain ⟨k, rfl⟩ := ofNat_toNat_of_isNameRest h
  exact (toUpper_ascii k).1 h

theorem isNameStart_toUpper {c : Char} (h : isNameStart c = true) :
    isNameStart c.toUpper = true := by
  obtain ⟨k, rfl⟩ := ofNat_toNat_of_isNameRest (isNameRest_of_isNameStart h)
  exact (toUpper_ascii k).2.1 h

theorem isLower_toUpper {c : Char} (h : isNameRest c = true) : c.toUpper.isLower = false := by
  obtain ⟨k, rfl⟩ := ofNat_toNat_of_isNameRest h
  exact (toUpper_ascii k).2.2

/-- Whether a text is the name of a function in upper case. -/
def IsUpperName (cs : List Char) : Prop :=
  IsName cs ∧ ∀ c ∈ cs, c.isLower = false

theorem isUpperName_upperName {name : String} (h : IsName name.toList) :
    IsUpperName (upperName name).toList := by
  obtain ⟨rest, c, hc, start⟩ := h
  simp only [upperName, String.toList_ofList]
  refine ⟨⟨?_, c.toUpper, ?_, isNameStart_toUpper start⟩, ?_⟩
  · simp only [List.mem_map]
    rintro _ ⟨d, hd, rfl⟩
    exact isNameRest_toUpper (rest d hd)
  · rw [List.head?_map]
    exact Option.mem_map_of_mem _ hc
  · simp only [List.mem_map]
    rintro _ ⟨d, hd, rfl⟩
    exact isLower_toUpper (rest d hd)

/-! ## Tokens -/

/-- What holds of every token that is read. -/
def Token.Spelled : Token → Prop
  | .number x => Unsigned x
  | .name text => IsName text.toList
  | _ => True

/-- What holds of every token of a list. -/
def Spelled (ts : List Placed) : Prop :=
  ∀ t ∈ ts, t.token.Spelled

theorem spelled_cons {t : Placed} {ts : List Placed} :
    Spelled (t :: ts) ↔ t.token.Spelled ∧ Spelled ts := by
  simp [Spelled]

theorem symbolAt_spelled {cs : List Char} {token : Token} {length : Nat}
    (h : symbolAt cs = some (token, length)) : token.Spelled := by
  unfold symbolAt at h
  split at h <;> cases h <;> trivial

theorem lexeme_spelled {c : Char} {rest : List Char} {found : Lexeme}
    (h : lexeme c rest = .ok found) : found.token.Spelled := by
  simp only [lexeme] at h
  split at h
  · split at h
    · cases h
      trivial
    · cases h
  · split at h
    · rename_i number
      have head : numberSpelling (c :: rest) =
          c :: (rest.takeWhile isNumberChar ++
            exponentSpelling (rest.dropWhile isNumberChar)) := by
        simp [numberSpelling, number]
      split at h
      · rename_i x hx
        cases h
        rw [head] at hx
        apply Number.unsigned_read _ hx
        rintro rfl
        simp [isNumberChar] at number
      · cases h
    · split at h
      · rename_i start
        cases h
        simp only [Token.Spelled, String.toList_ofList]
        refine ⟨?_, c, ?_, start⟩
        · intro d hd
          exact List.all_eq_true.1 List.all_takeWhile d hd
        · rw [List.takeWhile_cons_of_pos (isNameRest_of_isNameStart start)]
          rfl
      · split at h
        · rename_i symbol
          cases h
          exact symbolAt_spelled symbol
        · cases h

theorem tokensFrom_spelled {fuel position : Nat} {cs : List Char} {ts : List Placed}
    (h : tokensFrom fuel position cs = .ok ts) : Spelled ts := by
  induction fuel generalizing position cs ts with
  | zero =>
      cases h
      intro t ht
      cases ht
  | succ fuel ih =>
      cases cs with
      | nil =>
          cases h
          intro t ht
          cases ht
      | cons c rest =>
          simp only [tokensFrom] at h
          split at h
          · exact ih h
          · split at h
            · cases h
            · rename_i found hfound
              cases more : tokensFrom fuel (position + Text.byteLength found.spelling)
                  found.rest with
              | error e => simp [more, Except.map] at h
              | ok us =>
                  obtain rfl : _ :: us = ts := by simpa [more, Except.map] using h
                  exact spelled_cons.2 ⟨lexeme_spelled hfound, ih more⟩

/-! ## Expressions -/

/-- What holds of every part of a parsed expression. -/
def Expr.Spelled : Expr → Prop
  | .number x => Unsigned x
  | .call name _ => IsUpperName name.toList
  | _ => True

theorem mem_intercalate {α : Type} {sep : List α} {lists : List (List α)} {l : List α}
    (hl : l ∈ lists) {a : α} (ha : a ∈ l) : a ∈ sep.intercalate lists := by
  induction lists with
  | nil => cases hl
  | cons first lists ih =>
      cases lists with
      | nil =>
          obtain rfl := List.mem_singleton.1 hl
          simpa using ha
      | cons second lists =>
          rw [List.intercalate_cons_cons]
          rcases List.mem_cons.1 hl with rfl | hl
          · simp [ha]
          · exact List.mem_append_right _ (ih hl)

theorem Derives.spelled {l : Level} {ts : List Token} {e : Expr} (h : Derives l ts e)
    (hts : ∀ t ∈ ts, t.Spelled) : e.Every Expr.Spelled := by
  induction h with
  | operand hl h ih => exact ih hts
  | operation hl hop left right ihl ihr =>
      refine (Expr.every_binary _ _ _).2 ⟨trivial, ihl fun t ht => hts t ?_, ihr fun t ht => hts t ?_⟩
      · exact List.mem_append_left _ ht
      · exact List.mem_append_right _ (List.mem_cons_of_mem _ ht)
  | minus h ih | plus h ih =>
      exact (Expr.every_unary _ _).2 ⟨trivial, ih fun t ht => hts t (List.mem_cons_of_mem _ ht)⟩
  | unsigned h ih => exact ih hts
  | bare h ih => exact ih hts
  | index h ht ih =>
      exact (Expr.every_index _ _).2 ⟨trivial, ih fun t ht => hts t (List.mem_append_left _ ht)⟩
  | percent h ih =>
      exact (Expr.every_unary _ _).2 ⟨trivial, ih fun t ht => hts t (List.mem_append_left _ ht)⟩
  | number x => exact (Expr.every_number x).2 (hts (.number x) (by simp))
  | text s => exact (Expr.every_text s).2 trivial
  | truth h => exact (Expr.every_bool _).2 trivial
  | falsity h => exact (Expr.every_bool _).2 trivial
  | ref ht => exact (Expr.every_ref _).2 trivial
  | @call name args h ih =>
      have named : IsName name.toList := hts (.name name) (by simp)
      refine (Expr.every_call _ _).2 ⟨isUpperName_upperName named, fun arg harg => ?_⟩
      obtain ⟨⟨us, arg⟩, hus, rfl⟩ := List.mem_map.1 harg
      refine ih _ hus fun t ht => hts t ?_
      have inside : t ∈ [.comma].intercalate (args.map (·.1)) :=
        mem_intercalate (List.mem_map_of_mem hus) ht
      simp [inside]
  | parens h ih => exact ih fun t ht => hts t (by simp [ht])

/-- A parsed expression has numbers without a sign and calls of names in upper case. -/
theorem parse_spelled {text : String} {e : Expr} (h : parse text = .ok e) :
    e.Every Expr.Spelled := by
  obtain ⟨ts, hts, derived⟩ := parse_eq_ok_iff.1 h
  refine derived.spelled fun t ht => ?_
  obtain ⟨placed, hplaced, rfl⟩ := List.mem_map.1 ht
  exact tokensFrom_spelled hts placed hplaced

/-- A prepared template is made of its placeholders and of the expanded text. -/
theorem prepare_eq_ok {template : String} {p : Prepared} (h : prepare template = .ok p) :
    ∃ found, placeholders template = .ok found ∧ parse (expand template found) = .ok p.ast ∧
      p.keys = distinctKeys (found.map (·.key)) ∧ p.isRef = isSingleReference template found := by
  obtain ⟨found, hfound, h⟩ := bind_eq_ok_iff.1 h
  dsimp only at h
  split at h
  · cases h
  · cases h
  · rename_i ast parsed
    cases h
    exact ⟨found, hfound, parsed, rfl, rfl⟩

theorem prepare_spelled {template : String} {p : Prepared} (h : prepare template = .ok p) :
    p.ast.Every Expr.Spelled := by
  obtain ⟨found, -, parsed, -⟩ := prepare_eq_ok h
  exact parse_spelled parsed

end Spreadsheet.Template
