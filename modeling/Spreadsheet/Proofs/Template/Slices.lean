import Spreadsheet.Proofs.Formula.Literals
import Spreadsheet.Proofs.Template.References

/-!
# Cutting a template at its placeholders

Placeholders are looked for in a copy of the template in which the contents of literals are blank, and
the template itself is cut at the bytes where they are found.  Blanking leaves every byte outside of
literals as it is and where it is, so that the brackets found are those of the template and each cut
falls between two characters.
-/

namespace Spreadsheet.Template

open Spreadsheet.Text Spreadsheet.Formula

/-- Whether a text has a string literal: a quote with all quotes before it closed, some text with its
quotes doubled, and a quote.  No other quote is next to it. -/
structure LiteralAt (cs front body rest : List Char) : Prop where
  text : cs = front ++ '"' :: (doubled '"' body ++ '"' :: rest)
  outside : insideAfter false front = false
  starts : ∀ c ∈ front.getLast?, c ≠ '"'
  stops : ∀ c ∈ rest.head?, c ≠ '"'

/-- Whether a byte of a text lies between the quotes of a string literal. -/
def InLiteral (cs : List Char) (i : Nat) : Prop :=
  ∃ front body rest, LiteralAt cs front body rest ∧ byteLength front < i ∧
    i ≤ byteLength front + byteLength (doubled '"' body)

/-- Whether a part of a text lies between two of its bytes. -/
def SliceAt (cs : List Char) (start stop : Nat) (part : List Char) : Prop :=
  ∃ front back, cs = front ++ (part ++ back) ∧ start = byteLength front ∧
    stop = start + byteLength part

/-- Whether a text is made of the slices of a template between its placeholders, from byte `cursor` on
and up to its end, with the look-up of each placeholder in its place. -/
inductive Spliced (cs : List Char) : Nat → List Placeholder → List Char → Prop
  | rest {cursor : Nat} {part : List Char} (cut : SliceAt cs cursor (byteLength cs) part) :
      Spliced cs cursor [] part
  | next {cursor : Nat} {p : Placeholder} {found : List Placeholder} {part text : List Char}
      (cut : SliceAt cs cursor p.start part) (more : Spliced cs p.stop found text) :
      Spliced cs cursor (p :: found) (part ++ ((lookupText p.key).toList ++ text))

/-- Whether a placeholder covers a key of a template and the brackets around it, both of them outside
of string literals, and can be cut out at either side of each. -/
structure Placeholder.Covers (p : Placeholder) (template : String) : Prop where
  some_byte : p.start < p.stop
  inRange : p.stop ≤ template.utf8ByteSize
  opens : template.toByteArray[p.start]? = some '['.toUInt8
  closes : template.toByteArray[p.stop - 1]? = some ']'.toUInt8
  outside : ¬InLiteral template.toList p.start ∧ ¬InLiteral template.toList (p.stop - 1)
  boundaries : ∀ i ∈ [p.start, p.start + 1, p.stop - 1, p.stop],
    (⟨i⟩ : String.Pos.Raw).IsValid template
  key : ∃ inner, SliceAt template.toList (p.start + 1) (p.stop - 1) inner ∧
    readKey inner = some p.key

variable {cs front body rest part : List Char} {ms us : List Masked} {i : Nat}

/-! ## Bytes -/

/-- The bytes of a text. -/
def bytes (cs : List Char) : List UInt8 :=
  cs.flatMap String.utf8EncodeChar

@[simp] theorem bytes_append (cs ds : List Char) : bytes (cs ++ ds) = bytes cs ++ bytes ds :=
  List.flatMap_append

theorem bytes_middle (front middle back : List Char) :
    bytes (front ++ (middle ++ back)) = bytes front ++ (bytes middle ++ bytes back) := by
  rw [bytes_append, bytes_append]

@[simp] theorem length_bytes (cs : List Char) : (bytes cs).length = byteLength cs := by
  induction cs with
  | nil => rfl
  | cons c cs ih =>
      have whole : bytes (c :: cs) = String.utf8EncodeChar c ++ bytes cs := List.flatMap_cons
      rw [whole, List.length_append, ih, String.length_utf8EncodeChar, byteLength_cons]

theorem toByteArray_eq_bytes (s : String) : s.toByteArray = (bytes s.toList).toByteArray :=
  String.utf8Encode_toList.symm

theorem utf8ByteSize_eq_byteLength (s : String) : s.utf8ByteSize = byteLength s.toList := by
  rw [← String.size_toByteArray, toByteArray_eq_bytes, List.size_toByteArray, length_bytes]

theorem getElem?_toByteArray (s : String) (i : Nat) : s.toByteArray[i]? = (bytes s.toList)[i]? := by
  rw [toByteArray_eq_bytes]
  by_cases inside : i < (bytes s.toList).length
  · rw [getElem?_pos _ i (by rwa [List.size_toByteArray]), List.getElem_toByteArray,
      List.getElem?_eq_getElem inside]
  · rw [getElem?_neg _ i (by rwa [List.size_toByteArray]), List.getElem?_eq_none (by omega)]

/-- A character starts, or the text ends, behind each part of it. -/
theorem isValid_byteLength {text : String} (h : text.toList = front ++ rest) :
    (⟨byteLength front⟩ : String.Pos.Raw).IsValid text := by
  refine String.Pos.Raw.isValid_iff_exists_append.2
    ⟨String.ofList front, String.ofList rest, ?_, ?_⟩
  · rw [← String.ofList_append, ← h, String.ofList_toList]
  · have size := utf8ByteSize_eq_byteLength (String.ofList front)
    rw [String.toList_ofList] at size
    rw [← size]
    rfl

/-! ## Literals -/

theorem insideAfter_doubled (inside : Bool) (body : List Char) :
    insideAfter inside (doubled '"' body) = inside := by
  induction body with
  | nil => rfl
  | cons c body ih =>
      rw [doubled_cons, insideAfter_append]
      by_cases quote : c = '"' <;> simp [quote, ih]

theorem insideAfter_of_not_mem {inside : Bool} (free : '"' ∉ cs) :
    insideAfter inside cs = inside := by
  induction cs with
  | nil => rfl
  | cons c cs ih =>
      rw [List.mem_cons, not_or] at free
      rw [insideAfter_cons, if_neg (Ne.symm free.1), ih free.2]

/-- A literal behind another one. -/
theorem LiteralAt.after {front' body' rest' : List Char} (h : LiteralAt cs front body rest)
    (next : LiteralAt rest front' body' rest') :
    LiteralAt cs (front ++ '"' :: (doubled '"' body ++ '"' :: front')) body' rest' where
  text := by
    rw [h.text, next.text]
    simp
  outside := by
    simp [h.outside, insideAfter_doubled, next.outside]
  starts := by
    intro c hc
    rcases List.eq_nil_or_concat' front' with rfl | ⟨init, last, rfl⟩
    · exact absurd rfl (h.stops '"' (by rw [next.text]; rfl))
    · refine next.starts c ?_
      rw [← List.cons_append, ← List.append_assoc, ← List.cons_append, ← List.append_assoc,
        List.getLast?_concat] at hc
      rwa [List.getLast?_concat]
  stops := next.stops

theorem maskFrom_front (free : '"' ∉ front) (cs : List Char) :
    maskFrom false (front ++ cs) = (maskFrom false cs).map (front.map (⟨·, false⟩) ++ ·) := by
  induction front with
  | nil => simp
  | cons c front ih =>
      rw [List.mem_cons, not_or] at free
      have other : c ≠ '"' := Ne.symm free.1
      rw [List.cons_append, maskFrom]
      · rw [if_neg other, ih free.2, Option.map_map]
        rfl
      · simp

theorem maskFrom_quote (cs : List Char) :
    maskFrom false ('"' :: cs) = (maskFrom true cs).map (⟨'"', false⟩ :: ·) := by
  simp [maskFrom]

/-- A text that is masked from inside a literal starts with the rest of it. -/
theorem exists_doubled (h : maskFrom true cs = some ms) :
    ∃ body rest, cs = doubled '"' body ++ '"' :: rest ∧ ∀ c ∈ rest.head?, c ≠ '"' := by
  generalize inner : true = inside at h
  fun_induction maskFrom inside cs generalizing ms with
  | case1 => cases inner
  | case2 => cases h
  | case3 cs ih =>
      obtain ⟨us, hus, -⟩ := Option.map_eq_some_iff.1 h
      obtain ⟨body, rest, rfl, stops⟩ := ih rfl hus
      exact ⟨'"' :: body, rest, by simp [doubled_cons], stops⟩
  | case4 inside cs single ih =>
      refine ⟨[], cs, rfl, ?_⟩
      rintro c hc rfl
      obtain ⟨tail, rfl⟩ := List.head?_eq_some_iff.1 hc
      exact single tail inner.symm rfl rfl
  | case5 inside c cs _ other ih =>
      obtain ⟨us, hus, -⟩ := Option.map_eq_some_iff.1 h
      obtain ⟨body, rest, rfl, stops⟩ := ih inner hus
      exact ⟨c :: body, rest, by simp [doubled_cons, other], stops⟩

/-- The mask of a text goes up to its first quote, through the literal that starts there, and on
behind it. -/
theorem maskFrom_cases (h : maskFrom false cs = some ms) :
    '"' ∉ cs ∧ ms = cs.map (⟨·, false⟩) ∨
      ∃ front body rest us, LiteralAt cs front body rest ∧ maskFrom false rest = some us ∧
        ms = front.map (⟨·, false⟩) ++ ⟨'"', false⟩ ::
          ((doubled '"' body).map (⟨·, true⟩) ++ ⟨'"', false⟩ :: us) := by
  by_cases quoted : '"' ∈ cs
  · obtain ⟨front, tail, rfl, free⟩ := List.eq_append_cons_of_mem quoted
    rw [maskFrom_front free, maskFrom_quote, Option.map_map] at h
    obtain ⟨_, masked, rfl⟩ := Option.map_eq_some_iff.1 h
    obtain ⟨body, rest, rfl, stops⟩ := exists_doubled masked
    rw [maskFrom_doubled body stops] at masked
    obtain ⟨us, behind, rfl⟩ := Option.map_eq_some_iff.1 masked
    refine .inr ⟨front, body, rest, us, ⟨rfl, insideAfter_of_not_mem free, ?_, stops⟩, behind, rfl⟩
    rintro c hc rfl
    exact free (List.mem_of_getLast? hc)
  · have masked := maskFrom_front quoted []
    rw [List.append_nil, h] at masked
    exact .inl ⟨quoted, by simpa [maskFrom] using masked⟩

/-! ## Blanking -/

theorem blanked_append (ms us : List Masked) : blanked (ms ++ us) = blanked ms ++ blanked us :=
  List.flatMap_append

theorem blanked_cons (m : Masked) (ms : List Masked) : blanked (m :: ms) =
    (if m.hidden then List.replicate m.char.utf8Size ' ' else [m.char]) ++ blanked ms :=
  List.flatMap_cons

theorem blanked_visible (cs : List Char) : blanked (cs.map (⟨·, false⟩)) = cs := by
  induction cs with
  | nil => rfl
  | cons c cs ih => simp [blanked_cons, ih]

theorem blanked_hidden (cs : List Char) :
    blanked (cs.map (⟨·, true⟩)) = List.replicate (byteLength cs) ' ' := by
  induction cs with
  | nil => rfl
  | cons c cs ih => simp [blanked_cons, ih]

theorem blanked_literal (before us : List Masked) (body : List Char) :
    blanked (before ++ ⟨'"', false⟩ :: ((doubled '"' body).map (⟨·, true⟩) ++ ⟨'"', false⟩ :: us)) =
      (blanked before ++ ['"']) ++
        (List.replicate (byteLength (doubled '"' body)) ' ' ++ '"' :: blanked us) := by
  simp [blanked_append, blanked_cons, blanked_hidden]

theorem byteLength_replicate_blank (n : Nat) : byteLength (List.replicate n ' ') = n := by
  have size : ' '.utf8Size = 1 := rfl
  induction n with
  | zero => rfl
  | succ n ih => rw [List.replicate_succ, byteLength_cons, ih, size, Nat.add_comm]

theorem bytes_replicate_blank (n : Nat) :
    bytes (List.replicate n ' ') = List.replicate n ' '.toUInt8 := by
  induction n with
  | zero => rfl
  | succ n ih =>
      rw [List.replicate_succ, List.replicate_succ, ← ih]
      rfl

/-- Blanking changes no offset. -/
theorem byteLength_blanked (ms : List Masked) :
    byteLength (blanked ms) = byteLength (ms.map (·.char)) := by
  induction ms with
  | nil => rfl
  | cons m ms ih =>
      cases hidden : m.hidden <;> simp [blanked_cons, hidden, ih, byteLength_replicate_blank]

/-- Two texts that differ in the middle only are the same outside of it. -/
theorem getElem?_middle {α : Type} {front middle middle' back back' : List α} {i : Nat}
    (same : middle.length = middle'.length)
    (outside : i < front.length ∨ front.length + middle.length ≤ i ∧
      back[i - (front.length + middle.length)]? = back'[i - (front.length + middle.length)]?) :
    (front ++ (middle ++ back))[i]? = (front ++ (middle' ++ back'))[i]? := by
  rcases outside with before | ⟨behind, equal⟩
  · rw [List.getElem?_append_left before, List.getElem?_append_left before]
  · rw [← List.append_assoc, ← List.append_assoc, List.getElem?_append_right (by simpa using behind),
      List.getElem?_append_right (by simpa [← same] using behind)]
    simpa [← same] using equal

theorem LiteralAt.inLiteral_after (h : LiteralAt cs front body rest) (inside : InLiteral rest i) :
    InLiteral cs (byteLength front + byteLength (doubled '"' body) + 2 + i) := by
  obtain ⟨front', body', rest', next, above, below⟩ := inside
  have size : '"'.utf8Size = 1 := rfl
  refine ⟨_, body', rest', h.after next, ?_⟩
  simp only [byteLength_append, byteLength_cons, size]
  omega

/-- Blanking changes nothing outside of literals. -/
theorem bytes_blanked_outside (h : maskFrom false cs = some ms) (out : ¬InLiteral cs i) :
    (bytes (blanked ms))[i]? = (bytes cs)[i]? := by
  generalize size : cs.length = n
  induction n using Nat.strong_induction_on generalizing cs ms i with
  | h n ih =>
  rcases maskFrom_cases h with ⟨-, rfl⟩ | ⟨front, body, rest, us, literal, masked, rfl⟩
  · rw [blanked_visible]
  · have shorter : rest.length < n := by
      rw [← size, literal.text, List.length_append, List.length_cons, List.length_append,
        List.length_cons]
      omega
    have quote (ds : List Char) : bytes ('"' :: ds) = '"'.toUInt8 :: bytes ds := rfl
    have opening : (bytes (front ++ ['"'])).length = byteLength front + 1 := by
      rw [length_bytes, byteLength_append]
      rfl
    have whole : cs = (front ++ ['"']) ++ (doubled '"' body ++ '"' :: rest) := by
      rw [literal.text]
      simp
    rw [blanked_literal, blanked_visible, whole, bytes_middle, bytes_middle]
    have same : (bytes (List.replicate (byteLength (doubled '"' body)) ' ')).length =
        (bytes (doubled '"' body)).length := by
      rw [length_bytes, length_bytes, byteLength_replicate_blank]
    refine getElem?_middle same ?_
    rw [opening, length_bytes, byteLength_replicate_blank, quote, quote]
    by_cases before : i < byteLength front + 1
    · exact .inl before
    by_cases within : i ≤ byteLength front + byteLength (doubled '"' body)
    · exact absurd ⟨front, body, rest, literal, by omega, within⟩ out
    · refine .inr ⟨by omega, ?_⟩
      obtain ⟨k, rfl⟩ := Nat.exists_eq_add_of_le
        (show byteLength front + 1 + byteLength (doubled '"' body) ≤ i by omega)
      rw [Nat.add_sub_cancel_left]
      cases k with
      | zero => rfl
      | succ k =>
          rw [List.getElem?_cons_succ, List.getElem?_cons_succ]
          refine ih rest.length shorter masked (fun inside => out ?_) rfl
          have moved := literal.inLiteral_after inside
          rwa [show byteLength front + 1 + byteLength (doubled '"' body) + (k + 1) =
            byteLength front + byteLength (doubled '"' body) + 2 + k by omega]

/-- Behind what is before a literal the mask starts outside of literals. -/
theorem LiteralAt.outside_mask (h : LiteralAt cs front body rest)
    (masked : maskFrom false cs = some ms) :
    ∃ before after, ms = before ++ after ∧ before.map (·.char) = front ∧
      maskFrom false ('"' :: (doubled '"' body ++ '"' :: rest)) = some after := by
  have chars := map_char_maskFrom masked
  rw [h.text] at chars
  obtain ⟨before, after, rfl, hbefore, hafter⟩ := List.map_eq_append_iff.1 chars
  suffices out : Outside after by
    obtain ⟨ds, hds⟩ := out
    have same := map_char_maskFrom hds
    rw [hafter] at same
    exact ⟨before, after, rfl, hbefore, same ▸ hds⟩
  rcases List.eq_nil_or_concat' before with rfl | ⟨init, m, rfl⟩
  · exact ⟨cs, masked⟩
  · rw [List.map_append, List.map_singleton] at hbefore
    have quote : m.char ≠ '"' := h.starts m.char (by simp [← hbefore])
    rw [List.append_assoc, List.singleton_append] at masked
    refine maskFrom_visible masked ?_ quote
    have outside := h.outside
    rw [← hbefore, insideAfter_append] at outside
    rw [hidden_eq_insideAfter init masked quote]
    simpa [quote] using outside

/-- Blanking makes every byte inside a literal a blank. -/
theorem bytes_blanked_inside (h : maskFrom false cs = some ms) (inside : InLiteral cs i) :
    (bytes (blanked ms))[i]? = some ' '.toUInt8 := by
  obtain ⟨front, body, rest, literal, above, below⟩ := inside
  obtain ⟨before, after, rfl, chars, masked⟩ := literal.outside_mask h
  rw [maskFrom_quote, maskFrom_doubled body literal.stops, Option.map_map] at masked
  obtain ⟨us, -, rfl⟩ := Option.map_eq_some_iff.1 masked
  have opened : (bytes (blanked before ++ ['"'])).length = byteLength front + 1 := by
    rw [length_bytes, byteLength_append, byteLength_blanked, chars]
    rfl
  rw [Function.comp_apply, blanked_literal, bytes_middle, List.getElem?_append_right (by omega),
    bytes_replicate_blank, List.getElem?_append_left (by rw [List.length_replicate]; omega),
    List.getElem?_replicate_of_lt (by omega)]

/-! ## Placeholders -/

/-- A character of one byte that the mask shows stands at its place outside of literals. -/
theorem byte_of_visible {before after : List Masked} {c : Char}
    (h : maskFrom false cs = some (before ++ ⟨c, false⟩ :: after))
    (single : String.utf8EncodeChar c = [c.toUInt8]) (visible : c.toUInt8 ≠ ' '.toUInt8) :
    (bytes cs)[byteLength (before.map (·.char))]? = some c.toUInt8 ∧
      ¬InLiteral cs (byteLength (before.map (·.char))) := by
  have here : (bytes (blanked (before ++ ⟨c, false⟩ :: after)))[byteLength (before.map (·.char))]? =
      some c.toUInt8 := by
    have encoded : bytes [c] = [c.toUInt8] := by simp [bytes, single]
    have blank : blanked (before ++ ⟨c, false⟩ :: after) =
        blanked before ++ ([c] ++ blanked after) := by
      simp [blanked_append, blanked_cons]
    have width : byteLength (before.map (·.char)) = (bytes (blanked before)).length := by
      rw [length_bytes, byteLength_blanked]
    rw [blank, bytes_middle, encoded, width, List.getElem?_append_right (le_refl _)]
    simp
  have out : ¬InLiteral cs (byteLength (before.map (·.char))) := by
    intro inside
    rw [bytes_blanked_inside h inside] at here
    exact visible (Option.some.inj here).symm
  exact ⟨(bytes_blanked_outside h out).symm.trans here, out⟩

section

variable {before : Option Char} {position : Nat} {found : List Placeholder}

theorem Spans.pairwise (h : Spans before position ms found) :
    found.Pairwise fun p q => p.stop ≤ q.start := by
  induction h with
  | nil => exact .nil
  | run run opens hkey start stop more ih => exact .cons more.behind ih
  | char other more ih => exact ih

theorem Spans.spliced (h : Spans before position ms found) (done gap : List Char)
    (whole : cs = done ++ (gap ++ ms.map (·.char))) (place : position = byteLength (done ++ gap)) :
    Spliced cs (byteLength done) found (gap ++ expandFrom position (ms.map (·.char)) found) := by
  induction h generalizing done gap with
  | nil =>
      refine .rest ⟨done, [], by simpa [expandFrom] using whole, rfl, ?_⟩
      simp [whole, expandFrom]
  | @run before position ms inner rest p found run opens hkey start stop more ih =>
      obtain ⟨front, split, text⟩ := run.split
      rw [split, List.map_append, text] at whole ⊢
      rw [expandFrom_lookup start stop]
      have cut : SliceAt cs (byteLength done) p.start gap :=
        ⟨done, _, whole, rfl, by rw [start, place, byteLength_append]⟩
      have behind := ih (done ++ (gap ++ runText inner)) [] (by simp [whole])
        (by simp [stop, place, Nat.add_assoc])
      rw [show byteLength (done ++ (gap ++ runText inner)) = p.stop by
        simp [stop, place, Nat.add_assoc], List.nil_append] at behind
      exact .next cut behind
  | @char before position m rest found other more ih =>
      rw [List.map_cons, expandFrom_cons more.behind]
      have behind := ih done (gap ++ [m.char]) (by simpa using whole)
        (by simp [place, Nat.add_assoc])
      rwa [List.append_assoc, List.singleton_append] at behind

theorem Spans.covers {template : String} (h : Spans none 0 ms found)
    (masked : mask template.toList = some ms) : ∀ p ∈ found, p.Covers template := by
  intro p hp
  obtain ⟨front, tail, inner, after, rfl, bracketed, start, stop, hkey⟩ := h.bracketed p hp
  have opening : '['.utf8Size = 1 := rfl
  have closing : ']'.utf8Size = 1 := rfl
  have width := byteLength_runText inner
  have text := map_char_maskFrom masked
  rw [bracketed.text] at masked text
  simp only [List.map_append, List.map_cons] at text
  have first := byte_of_visible masked rfl (by decide)
  have last := @byte_of_visible template.toList (front ++ ⟨'[', false⟩ :: inner) after ']'
    (by simpa [mask] using masked) rfl (by decide)
  have place : byteLength ((front ++ ⟨'[', false⟩ :: inner).map (·.char)) = p.stop - 1 := by
    simp only [List.map_append, List.map_cons, byteLength_append, byteLength_cons, opening]
    omega
  rw [← Nat.zero_add (byteLength (front.map (·.char))), ← start] at first
  rw [place] at last
  rw [← getElem?_toByteArray] at first last
  generalize front.map (·.char) = pre at *
  generalize inner.map (·.char) = key at *
  generalize after.map (·.char) = post at *
  have valid {i : Nat} (cs ds : List Char) (split : cs ++ ds = pre ++ '[' :: (key ++ ']' :: post))
      (here : i = byteLength cs) : (⟨i⟩ : String.Pos.Raw).IsValid template :=
    here ▸ isValid_byteLength (text.symm.trans split.symm)
  refine ⟨by omega, ?_, first.1, last.1, ⟨first.2, last.2⟩, ?_, ?_⟩
  · rw [utf8ByteSize_eq_byteLength, ← text]
    simp only [byteLength_append, byteLength_cons, opening, closing]
    omega
  · simp only [List.mem_cons, List.not_mem_nil, or_false]
    rintro i (rfl | rfl | rfl | rfl)
    · exact valid pre _ rfl (by omega)
    · exact valid (pre ++ ['[']) (key ++ ']' :: post) (by simp) (by simp; omega)
    · exact valid (pre ++ '[' :: key) (']' :: post) (by simp) (by simp; omega)
    · exact valid (pre ++ '[' :: (key ++ [']'])) post (by simp) (by simp; omega)
  · refine ⟨key, ⟨pre ++ ['['], ']' :: post, by simp [← text], ?_, ?_⟩, hkey⟩
    · simp
      omega
    · omega

end

/-- Where the placeholders of a template are found, it can be cut.  The copy in which literals are
blanked has the bytes of the template outside of them, at the same offsets.  The placeholders are apart
from each other and in order, each covers a key in brackets, and the expanded template is made of the
slices between them. -/
theorem placeholders_slices {template : String} {found : List Placeholder}
    (h : placeholders template = .ok found) :
    ∃ ms, mask template.toList = some ms ∧
      (String.ofList (blanked ms)).utf8ByteSize = template.utf8ByteSize ∧
      (∀ i, ¬InLiteral template.toList i →
        (String.ofList (blanked ms)).toByteArray[i]? = template.toByteArray[i]?) ∧
      (∀ i, InLiteral template.toList i →
        (String.ofList (blanked ms)).toByteArray[i]? = some ' '.toUInt8) ∧
      (found.Pairwise fun p q => p.stop ≤ q.start) ∧ (∀ p ∈ found, p.Covers template) ∧
      Spliced template.toList 0 found (expand template found).toList := by
  obtain ⟨ms, masked, spans⟩ := placeholders_spans h
  have chars := map_char_maskFrom masked
  refine ⟨ms, masked, ?_, fun i out => ?_, fun i inside => ?_, spans.pairwise, spans.covers masked,
    ?_⟩
  · rw [utf8ByteSize_eq_byteLength, utf8ByteSize_eq_byteLength, String.toList_ofList,
      byteLength_blanked, chars]
  · rw [getElem?_toByteArray, getElem?_toByteArray, String.toList_ofList,
      bytes_blanked_outside masked out]
  · rw [getElem?_toByteArray, String.toList_ofList, bytes_blanked_inside masked inside]
  · have whole : template.toList = [] ++ ([] ++ ms.map (·.char)) := by simp [chars]
    have spliced := spans.spliced [] [] whole rfl
    rw [chars] at spliced
    simpa [expand] using spliced

/-- Characters of two bytes, in a literal and in a key, and a doubled quote. -/
theorem placeholders_slices_umlauts :
    ∃ found, placeholders "\"ä [x]\"\"\" & [größe] * [0]" = .ok found ∧
      found.map (fun p => (p.start, p.stop)) = [(13, 22), (25, 28)] ∧
      (found.Pairwise fun p q => p.stop ≤ q.start) ∧
      (∀ p ∈ found, p.Covers "\"ä [x]\"\"\" & [größe] * [0]") ∧
      Spliced "\"ä [x]\"\"\" & [größe] * [0]".toList 0 found
        (expand "\"ä [x]\"\"\" & [größe] * [0]" found).toList := by
  have sample : ∃ found, placeholders "\"ä [x]\"\"\" & [größe] * [0]" = .ok found ∧
      found.map (fun p => (p.start, p.stop)) = [(13, 22), (25, 28)] := by
    decide +kernel
  obtain ⟨found, hfound, spans⟩ := sample
  obtain ⟨ms, -, -, -, -, apart, covers, spliced⟩ := placeholders_slices hfound
  exact ⟨found, hfound, spans, apart, covers, spliced⟩

end Spreadsheet.Template
