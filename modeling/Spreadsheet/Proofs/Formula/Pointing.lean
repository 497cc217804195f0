import Spreadsheet.Formula.Writer
import Spreadsheet.Proofs.Location

/-!
# Reading references back

What a formula writes for a placed cell is read as the location of the cell: the name of a sheet,
plain or in quotes, and a name of letters and digits behind it.  Where no sheet is named, it is the
one on which the formula stands.
-/

namespace Spreadsheet

open Formula Template

/-- The name up to its closing quote, a quote inside written twice, and what follows. -/
def quotedName : List Char → Option (List Char × List Char)
  | '\'' :: '\'' :: rest => (quotedName rest).map fun (name, after) => ('\'' :: name, after)
  | c :: rest =>
    if c = '\'' then some ([], rest)
    else (quotedName rest).map fun (name, after) => (c :: name, after)
  | [] => none

/-- The location to which a text refers that stands in a formula on a sheet. -/
def readReference (sheet text : String) : Option Location :=
  match text.toList with
  | '\'' :: quoted =>
    match quotedName quoted with
    | some (name, '!' :: a1) => Location.ofA1? (String.ofList name) (String.ofList a1)
    | _ => none
  | cs =>
    match cs.dropWhile (· != '!') with
    | '!' :: a1 => Location.ofA1? (String.ofList (cs.takeWhile (· != '!'))) (String.ofList a1)
    | _ => Location.ofA1? sheet text

/-- The corners of the block to which a text refers that stands in a formula on a sheet: a location, or
two with a colon between them, the second one on the sheet of the first. -/
def readSpan (sheet text : String) : Option (Location × Location) :=
  match text.toList.reverse.dropWhile isNameRest with
  | ':' :: front => do
    let first ← readReference sheet (String.ofList front.reverse)
    let name := (text.toList.reverse.takeWhile isNameRest).reverse
    return (first, ← Location.ofA1? first.sheet (String.ofList name))
  | _ => (readReference sheet text).map fun l => (l, l)

/-! ## Names of sheets -/

theorem quotedName_doubled (name : List Char) {c : Char} (rest : List Char) (other : c ≠ '\'') :
    quotedName (doubled '\'' name ++ '\'' :: c :: rest) = some (name, c :: rest) := by
  induction name with
  | nil =>
      rw [doubled, List.flatMap_nil, List.nil_append, quotedName]
      · rfl
      · rintro tail - same
        obtain ⟨rfl, -⟩ : c = '\'' ∧ rest = tail := by simpa using same
        exact other rfl
  | cons d name ih =>
      rw [doubled_cons]
      by_cases h : d = '\''
      · subst h
        simp [quotedName, ih]
      · rw [if_neg h, List.append_assoc, List.singleton_append, quotedName]
        · simp [h, ih]
        · rintro tail rfl
          simp_all

theorem isNameRest_ne_mark {c : Char} (h : isNameRest c = true) : (c != '!') = true := by
  rw [bne_iff_ne]
  rintro rfl
  cases h

theorem readReference_unquoted {sheet text : String} (h : text.toList.head? ≠ some '\'') :
    readReference sheet text = match text.toList.dropWhile (· != '!') with
      | '!' :: a1 =>
        Location.ofA1? (String.ofList (text.toList.takeWhile (· != '!'))) (String.ofList a1)
      | _ => Location.ofA1? sheet text := by
  unfold readReference
  split
  · rename_i quoted same
    rw [same] at h
    exact absurd rfl h
  · rfl

theorem head?_ne_quote {cs : List Char} (h : ∀ c ∈ cs, isNameRest c = true) (rest : List Char) :
    (cs ++ '!' :: rest).head? ≠ some '\'' := by
  cases cs with
  | nil => simp
  | cons c cs =>
      rintro same
      obtain rfl : c = '\'' := by simpa using same
      exact absurd (h '\'' (by simp)) (by decide)

/-- What is written for a placed cell is read as its location. -/
theorem readReference_qualified (sheet : String) {l : Location} (rows : l.row + 1 < coordinateBound)
    (cols : l.col + 1 < coordinateBound) : readReference sheet (l.qualified sheet) = some l := by
  have name := isNameRest_a1 l
  unfold Location.qualified
  split
  case isTrue here =>
    have own : l.a1.toList.head? ≠ some '\'' := by
      intro first
      exact absurd (name _ (List.mem_of_head? first)) (by decide)
    have behind : l.a1.toList.dropWhile (· != '!') = [] :=
      List.dropWhile_eq_nil_iff.2 fun c hc => isNameRest_ne_mark (name c hc)
    rw [readReference_unquoted own, behind]
    rw [← here]
    exact Location.ofA1?_a1 l.sheet rows cols
  case isFalse =>
    simp only [quoteSheetName]
    split
    case isTrue plain =>
      simp only [Bool.and_eq_true, List.all_eq_true] at plain
      have marks : ∀ c ∈ l.sheet.toList, (c != '!') = true :=
        fun c hc => isNameRest_ne_mark (plain.1 c hc)
      have spelled : (l.sheet ++ "!" ++ l.a1).toList = l.sheet.toList ++ '!' :: l.a1.toList := by
        simp [String.toList_append]
      rw [readReference_unquoted (by rw [spelled]; exact head?_ne_quote plain.1 _), spelled,
        List.dropWhile_append_of_pos marks, List.takeWhile_append_of_pos marks]
      simpa using Location.ofA1?_a1 l.sheet rows cols
    case isFalse =>
      have read := quotedName_doubled l.sheet.toList l.a1.toList (show '!' ≠ '\'' by decide)
      have spelled : (String.ofList ('\'' :: doubled '\'' l.sheet.toList ++ ['\'']) ++ "!"
          ++ l.a1).toList = '\'' :: (doubled '\'' l.sheet.toList ++ '\'' :: '!' :: l.a1.toList) := by
        simp [String.toList_append]
      show readReference sheet (String.ofList ('\'' :: doubled '\'' l.sheet.toList ++ ['\'']) ++ "!"
        ++ l.a1) = some l
      unfold readReference
      rw [spelled]
      simp only [read]
      simpa using Location.ofA1?_a1 l.sheet rows cols

/-! ## Blocks -/

theorem reverse_split (front : List Char) {c : Char} {name : List Char} (stop : isNameRest c = false)
    (h : ∀ d ∈ name, isNameRest d = true) :
    (front ++ c :: name).reverse.dropWhile isNameRest = c :: front.reverse ∧
      ((front ++ c :: name).reverse.takeWhile isNameRest).reverse = name := by
  have named : ∀ d ∈ name.reverse, isNameRest d = true := fun d hd => h d (List.mem_reverse.1 hd)
  rw [List.reverse_append, List.reverse_cons, List.append_assoc, List.singleton_append,
    List.dropWhile_append_of_pos named, List.takeWhile_append_of_pos named]
  simp [stop]

theorem readSpan_qualified (sheet : String) {l : Location} (rows : l.row + 1 < coordinateBound)
    (cols : l.col + 1 < coordinateBound) : readSpan sheet (l.qualified sheet) = some (l, l) := by
  have read := readReference_qualified sheet rows cols
  have name := isNameRest_a1 l
  suffices none : ∀ front, (l.qualified sheet).toList.reverse.dropWhile isNameRest ≠ ':' :: front by
    unfold readSpan
    split
    case h_1 front same => exact absurd same (none front)
    case h_2 => rw [read, Option.map_some]
  intro front
  unfold Location.qualified
  split
  case isTrue =>
    have behind : l.a1.toList.reverse.dropWhile isNameRest = [] :=
      List.dropWhile_eq_nil_iff.2 fun c hc => name c (List.mem_reverse.1 hc)
    simp [behind]
  case isFalse =>
    have spelled : (quoteSheetName l.sheet ++ "!" ++ l.a1).toList =
        (quoteSheetName l.sheet).toList ++ '!' :: l.a1.toList := by
      simp [String.toList_append]
    rw [spelled, (reverse_split _ (by decide) name).1]
    simp

/-- What is written for a block is read as its corners, both of them on the sheet of the first. -/
theorem readSpan_spanText_corners (sheet : String) {first last : Location}
    (bounded : ∀ l ∈ [first, last], l.row + 1 < coordinateBound ∧ l.col + 1 < coordinateBound) :
    readSpan sheet (spanText sheet first last) = some (first, { last with sheet := first.sheet }) := by
  obtain ⟨rows, cols⟩ := bounded first (by simp)
  obtain ⟨rows', cols'⟩ := bounded last (by simp)
  unfold spanText
  split
  case isTrue single =>
    rw [readSpan_qualified sheet rows cols, ← single]
  case isFalse =>
    have spelled : (first.qualified sheet ++ ":" ++ last.a1).toList =
        (first.qualified sheet).toList ++ ':' :: last.a1.toList := by
      simp [String.toList_append]
    obtain ⟨front, name⟩ := reverse_split (c := ':') (first.qualified sheet).toList (by decide)
      (isNameRest_a1 last)
    simp only [readSpan, spelled, front, name, List.reverse_reverse, String.ofList_toList,
      readReference_qualified sheet rows cols, Option.bind_eq_bind, Option.bind_some,
      Location.ofA1?_a1 first.sheet rows' cols', Option.pure_def]

theorem readSpan_spanText (sheet : String) {first last : Location} (same : last.sheet = first.sheet)
    (bounded : ∀ l ∈ [first, last], l.row + 1 < coordinateBound ∧ l.col + 1 < coordinateBound) :
    readSpan sheet (spanText sheet first last) = some (first, last) := by
  rw [readSpan_spanText_corners sheet bounded, ← same]

example : readReference "Costs" "'It''s due'!B3" = some ⟨"It's due", 2, 1⟩ := by decide +kernel

end Spreadsheet
