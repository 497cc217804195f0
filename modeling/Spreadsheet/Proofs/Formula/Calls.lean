import Spreadsheet.Proofs.Formula.Marking
import Spreadsheet.Proofs.Formula.Quoting
import Spreadsheet.Formula.Functions

/-!
# The calls of a marked text

A name is called in a formula text where a parenthesis follows it directly outside quotes; it goes
back as far as a name can from there.  After marking newer functions no call is left that needs a
mark: so marking a second time changes nothing, and the quoted parts are what they were.
-/

namespace Spreadsheet.Formula

open Spreadsheet.Text Spreadsheet.Template

variable {known : String → Bool} {cs pre name post : List Char} {c q : Char}
  {quote before : Option Char} {inName : Bool}

/-! ## Names in front of a parenthesis -/

theorem callName_eq_some :
    callName cs = some name ↔ IsName name ∧ ∃ post, cs = name ++ '(' :: post := by
  constructor
  · intro found
    cases cs with
    | nil => cases found
    | cons c rest =>
        rw [callName] at found
        split at found
        case isFalse => cases found
        case isTrue starts =>
          obtain ⟨start, next⟩ := Bool.and_eq_true_iff.1 starts
          cases found
          refine ⟨⟨List.forall_mem_cons.2 ⟨isNameRest_of_isNameStart start, fun d hd =>
            List.mem_takeWhile_imp hd⟩, c, rfl, start⟩, (rest.dropWhile isNameRest).tail, ?_⟩
          rw [beq_iff_eq] at next
          rw [List.cons_append, ← List.eq_cons_of_mem_head? next, List.takeWhile_append_dropWhile]
  · rintro ⟨⟨chars, c, hc, start⟩, post, rfl⟩
    cases name with
    | nil => cases hc
    | cons d run =>
        obtain rfl : d = c := by simpa using hc
        have tail : ∀ x ∈ run, isNameRest x = true := fun x hx => chars x (by simp [hx])
        have paren : isNameRest '(' = false := rfl
        rw [List.cons_append, callName, List.dropWhile_append_of_pos tail,
          List.takeWhile_append_of_pos tail]
        simp [start, paren]

theorem isNameRest_of_mem_futureMarker : ∀ c ∈ futureMarker.toList, isNameRest c = true := by
  have marker : futureMarker.toList = ['_', 'x', 'l', 'f', 'n', '.'] := rfl
  rw [marker]
  exact forall_mem_of_all (by decide)

theorem isNameRest_of_mem_marker (needed : Bool) :
    ∀ c ∈ (if needed then futureMarker.toList else []), isNameRest c = true := by
  cases needed with
  | true => exact isNameRest_of_mem_futureMarker
  | false => simp

/-- What follows the name at the start of a text is the same after marking. -/
theorem head?_dropWhile_markFrom (known : String → Bool) (before : Option Char) (inName : Bool)
    (cs : List Char) : ((markFrom known none before inName cs).dropWhile isNameRest).head? =
      (cs.dropWhile isNameRest).head? := by
  induction cs generalizing before inName with
  | nil => rfl
  | cons c rest ih =>
      have kept {more : List Char} (same : (more.dropWhile isNameRest).head? =
          (rest.dropWhile isNameRest).head?) :
          ((c :: more).dropWhile isNameRest).head? = ((c :: rest).dropWhile isNameRest).head? := by
        by_cases part : isNameRest c = true
        · rw [List.dropWhile_cons_of_pos part, List.dropWhile_cons_of_pos part, same]
        · rw [List.dropWhile_cons_of_neg part, List.dropWhile_cons_of_neg part]
          rfl
      rw [markFrom]
      by_cases mark : isQuoteMark c = true
      · have part : isNameRest c = false := not_isNameRest_of_isQuoteMark mark
        simp [mark, part]
      · rw [if_neg mark]
        split
        · rw [List.dropWhile_append_of_pos (isNameRest_of_mem_marker _)]
          exact kept (ih _ _)
        · exact kept (ih _ _)

theorem callName_markFrom (known : String → Bool) (before : Option Char) (inName : Bool) (c : Char)
    (rest : List Char) :
    callName (c :: markFrom known none before inName rest) = none ↔ callName (c :: rest) = none := by
  rw [callName, callName, head?_dropWhile_markFrom]
  split <;> simp

theorem markedName_of_settled (settled : needsMarker known name = false) :
    markedName known (String.ofList name) = name := by
  rw [markedName, String.toList_ofList, settled]
  rfl

/-- The name of a call with its marker is a name that needs none. -/
theorem isName_markedName (known : String → Bool) (h : IsName name) :
    IsName (markedName known (String.ofList name)) ∧
      needsMarker known (markedName known (String.ofList name)) = false := by
  simp only [markedName, String.toList_ofList]
  by_cases needed : needsMarker known name = true
  · rw [if_pos needed]
    refine ⟨⟨fun c hc => ?_, '_', rfl, rfl⟩, ?_⟩
    · rcases List.mem_append.1 hc with hc | hc
      · exact isNameRest_of_mem_futureMarker c hc
      · exact h.1 c hc
    · have marked : futureMarker.toList.isPrefixOf (futureMarker.toList ++ name) = true :=
        List.isPrefixOf_iff_prefix.2 (List.prefix_append _ _)
      simp [needsMarker, marked]
  · rw [if_neg needed]
    exact ⟨h, by simpa using needed⟩

/-- A text starts, for the scan at a boundary, with a call or with a character that is no call. -/
theorem markFrom_call (h : IsName name) (boundary : AtBoundary before) (post : List Char) :
    markFrom known none before false (name ++ '(' :: post) =
      markedName known (String.ofList name) ++ '(' :: markFrom known none (some '(') false post := by
  have spelled : (String.ofList name).toList = name := String.toList_ofList
  have named := @markFrom_name known (String.ofList name) (by rwa [spelled]) before boundary post
  rwa [spelled] at named

theorem markFrom_other (quote : isQuoteMark c = false)
    (other : AtBoundary before → callName (c :: post) = none) :
    markFrom known none before false (c :: post) = c :: markFrom known none (some c) false post := by
  by_cases boundary : AtBoundary before
  · rw [markFrom, other boundary]
    simp [quote]
  · have word : before.any isWordChar = true := by simpa [AtBoundary] using boundary
    rw [markFrom, word]
    simp [quote]

/-- What the scan finds at the start of a text outside quotes. -/
theorem call_or_other (before : Option Char) (c : Char) (rest : List Char) :
    (AtBoundary before ∧ ∃ name post, IsName name ∧ c :: rest = name ++ '(' :: post) ∨
      (AtBoundary before → callName (c :: rest) = none) := by
  by_cases boundary : AtBoundary before
  · cases found : callName (c :: rest) with
    | none => exact .inr fun _ => rfl
    | some name =>
        obtain ⟨isName, post, same⟩ := callName_eq_some.1 found
        exact .inl ⟨boundary, name, post, isName, same⟩
  · exact .inr fun h => absurd h boundary

/-! ## Marking twice -/

/-- Marking a marked text changes nothing, outside quotes and inside them. -/
theorem markFrom_markFrom (known : String → Bool) (cs : List Char) :
    (∀ before, markFrom known none before false (markFrom known none before false cs) =
      markFrom known none before false cs) ∧
    ∀ q, markFrom known (some q) none false (markFrom known (some q) none false cs) =
      markFrom known (some q) none false cs := by
  induction h : cs.length using Nat.strongRecOn generalizing cs with
  | ind n ih =>
      subst h
      cases cs with
      | nil => exact ⟨fun _ => rfl, fun _ => rfl⟩
      | cons c rest =>
          have inside := ih rest.length (by simp) rest rfl
          refine ⟨fun before => ?_, fun q => ?_⟩
          · by_cases mark : isQuoteMark c = true
            · simp [markFrom, mark, inside.2]
            rw [Bool.not_eq_true] at mark
            rcases call_or_other before c rest with ⟨boundary, name, post, isName, same⟩ | other
            · obtain ⟨markedIsName, settled⟩ := isName_markedName known isName
              have shorter : post.length < (c :: rest).length := by
                rw [same]
                simp
                omega
              have again := (ih post.length shorter post rfl).1 (some '(')
              rw [same, markFrom_call isName boundary, markFrom_call markedIsName boundary, again,
                markedName_of_settled settled]
            · rw [markFrom_other mark other, markFrom_other mark, inside.1]
              intro boundary
              rw [callName_markFrom, other boundary]
          · by_cases close : c = q
            · simp [markFrom, close, inside.1]
            · simp [markFrom, close, inside.2]

theorem length_le_markFrom (known : String → Bool) (quote before : Option Char) (inName : Bool)
    (cs : List Char) : cs.length ≤ (markFrom known quote before inName cs).length := by
  induction cs generalizing quote before inName with
  | nil => simp
  | cons c rest ih =>
      cases quote with
      | some q => simpa [markFrom] using ih _ _ _
      | none =>
          rw [markFrom]
          split
          · simpa using ih _ _ _
          · split
            · have := ih none (some c) true
              simp only [List.length_append, List.length_cons]
              omega
            · simpa using ih _ _ _

/-! ## The calls of a text -/

/-- Whether a name behind a text starts at a word boundary and there is no longer one that does;
`before` is the character in front of the text. -/
structure StartsBehind (before : Option Char) (pre name : List Char) : Prop where
  boundary : AtBoundary (pre.getLast?.or before)
  longest : ∀ front extra, pre = front ++ extra → extra ≠ [] → IsName (extra ++ name) →
    ¬AtBoundary (front.getLast?.or before)

/-- Whether a name is called somewhere in a text: a parenthesis follows it directly outside quotes. -/
def Calls (cs name : List Char) : Prop :=
  ∃ pre post, cs = pre ++ (name ++ '(' :: post) ∧ openQuote none pre = none ∧ IsName name ∧
    StartsBehind none pre name

theorem StartsBehind.behind {front back : List Char}
    (h : StartsBehind before (front ++ c :: back) name) : StartsBehind (some c) back name where
  boundary := by simpa [List.getLast?_append, List.getLast?_cons] using h.boundary
  longest := by
    intro front' extra same nonempty longer
    have earlier := h.longest (front ++ c :: front') extra (by simp [same]) nonempty longer
    simpa [List.getLast?_append, List.getLast?_cons] using earlier

theorem not_mem_paren_of_isName (h : IsName name) : '(' ∉ name := by
  intro paren
  cases h.1 _ paren

theorem quoteFree_of_isName (h : IsName name) : QuoteFree name := fun c hc =>
  (isAtomChar_facts (isAtomChar_of_isNameRest (h.1 c hc))).1

/-- The first parenthesis of a text ends what is in front of it. -/
theorem eq_of_append_paren {front front' back back' : List Char} (first : '(' ∉ front)
    (first' : '(' ∉ front') (same : front ++ '(' :: back = front' ++ '(' :: back') :
    front = front' ∧ back = back' := by
  rcases List.append_eq_append_iff.1 same with ⟨more, rfl, behind⟩ | ⟨more, rfl, behind⟩ <;>
    cases more with
    | nil => simpa [eq_comm] using behind
    | cons d more =>
        rw [List.cons_append] at behind
        obtain rfl := (List.cons.inj behind).1
        simp at first first'

/-- A call in front of which a text is scanned ends in that text, or is that of the name itself. -/
theorem StartsBehind.split (h : StartsBehind before pre name) (isName : IsName name)
    (start : AtBoundary before) {found back : List Char} (foundIsName : IsName found)
    (same : pre ++ (name ++ '(' :: post) = found ++ '(' :: back) :
    pre = [] ∨ ∃ rest, pre = found ++ '(' :: rest := by
  by_cases paren : '(' ∈ pre
  · obtain ⟨front, rest, rfl, free⟩ := List.eq_append_cons_of_mem paren
    rw [List.append_assoc, List.cons_append] at same
    obtain ⟨rfl, -⟩ := eq_of_append_paren free (not_mem_paren_of_isName foundIsName) same
    exact .inr ⟨rest, rfl⟩
  · have free : '(' ∉ pre ++ name := by
      rw [List.mem_append, not_or]
      exact ⟨paren, not_mem_paren_of_isName isName⟩
    rw [← List.append_assoc] at same
    obtain ⟨rfl, -⟩ := eq_of_append_paren free (not_mem_paren_of_isName foundIsName) same
    exact .inl (by_contra fun nonempty => h.longest [] pre rfl nonempty foundIsName start)

theorem atBoundary_none : AtBoundary none :=
  rfl

theorem atBoundary_quoteMark (mark : isQuoteMark q = true) : AtBoundary (some q) := by
  rcases isQuoteMark_iff.1 mark with rfl | rfl <;> rfl

/-- The character before a text matters to the scan only as a word boundary outside quotes. -/
theorem markFrom_before (before before' : Option Char)
    (same : quote = none → AtBoundary before ∧ AtBoundary before') :
    markFrom known quote before false cs = markFrom known quote before' false cs := by
  cases cs with
  | nil => rfl
  | cons c rest =>
      cases quote with
      | some q => rfl
      | none =>
          obtain ⟨boundary, boundary'⟩ := same rfl
          rw [markFrom, markFrom, boundary, boundary']

/-! ## What is left of the calls -/

/-- In a text that marking leaves as it is, no call at its start needs a mark. -/
theorem settled_of_markFrom_eq (h : IsName name) (boundary : AtBoundary before)
    (fixed : markFrom known none before false (name ++ '(' :: post) = name ++ '(' :: post) :
    needsMarker known name = false ∧ markFrom known none (some '(') false post = post := by
  rw [markFrom_call h boundary, markedName, String.toList_ofList] at fixed
  by_cases needed : needsMarker known name = true
  · have longer := congrArg List.length fixed
    have := length_le_markFrom known none (some '(') false post
    have marker : futureMarker.toList.length = 6 := rfl
    rw [if_pos needed] at longer
    simp only [List.length_append, List.length_cons, marker] at longer
    omega
  · rw [if_neg needed, List.nil_append] at fixed
    exact ⟨by simpa using needed, (List.cons.inj (List.append_cancel_left fixed)).2⟩

/-- Where marking leaves a text as it is, the scan leaves the rest of it behind its first character,
or behind its first call, as it is too. -/
theorem markFrom_eq_behind (marks : ∀ q ∈ quote, isQuoteMark q = true)
    (fixed : markFrom known quote before false (c :: cs) = c :: cs) :
    (quote = none ∧ AtBoundary before ∧
        ∃ name post, IsName name ∧ c :: cs = name ++ '(' :: post) ∨
      markFrom known (quoteBehind quote c) (some c) false cs = cs := by
  cases quote with
  | some q =>
      rw [markFrom] at fixed
      refine .inr ?_
      rw [markFrom_before (some c) none, quoteBehind]
      · exact (List.cons.inj fixed).2
      · intro closed
        have close : c = q := by simpa [quoteBehind] using closed
        exact ⟨atBoundary_quoteMark (close ▸ marks q rfl), atBoundary_none⟩
  | none =>
      by_cases mark : isQuoteMark c = true
      · rw [markFrom, if_pos mark] at fixed
        refine .inr ?_
        rw [quoteBehind, if_pos mark, markFrom_before (some c) none (by simp)]
        exact (List.cons.inj fixed).2
      rcases call_or_other before c cs with ⟨boundary, call⟩ | other
      · exact .inl ⟨rfl, boundary, call⟩
      · rw [Bool.not_eq_true] at mark
        rw [markFrom_other mark other] at fixed
        refine .inr ?_
        rw [quoteBehind, mark]
        exact (List.cons.inj fixed).2

/-- In a text that marking leaves as it is, no call needs a mark: by induction on the text before the
call, which is taken apart as the scan does it. -/
theorem settled_of_calls (isName : IsName name) (quote before : Option Char) (pre : List Char)
    (marks : ∀ q ∈ quote, isQuoteMark q = true)
    (fixed : markFrom known quote before false (pre ++ (name ++ '(' :: post)) =
      pre ++ (name ++ '(' :: post))
    (outside : openQuote quote pre = none) (starts : StartsBehind before pre name) :
    needsMarker known name = false := by
  induction h : pre.length using Nat.strongRecOn generalizing quote before pre with
  | ind n ih =>
      subst h
      cases pre with
      | nil =>
          obtain rfl : quote = none := outside
          exact (settled_of_markFrom_eq isName starts.boundary fixed).1
      | cons c rest =>
          rcases markFrom_eq_behind marks fixed with
            ⟨rfl, start, found, post', foundIsName, same⟩ | kept
          · rcases starts.split isName start foundIsName same with empty | ⟨back, split⟩
            · cases empty
            · have shorter : back.length < (c :: rest).length := by
                rw [split]
                simp
                omega
              rw [split] at fixed outside starts
              rw [List.append_assoc, List.cons_append] at fixed
              rw [openQuote_append, openQuote_quoteFree (quoteFree_of_isName foundIsName)] at outside
              exact ih back.length shorter none (some '(') back (by simp)
                (settled_of_markFrom_eq foundIsName start fixed).2 outside starts.behind rfl
          · exact ih rest.length (by simp) (quoteBehind quote c) (some c) rest
              (isQuoteMark_of_mem_quoteBehind marks c) kept outside
              (@StartsBehind.behind name c before [] rest starts) rfl
/-! ## Quoted parts and calls after the passes -/

theorem quoteFree_collapseOutside (skipping : Bool) (free : QuoteFree cs) :
    QuoteFree (collapseOutside skipping cs) := by
  induction cs generalizing skipping with
  | nil => exact quoteFree_nil
  | cons c cs ih =>
      rw [quoteFree_cons] at free
      rw [collapseOutside]
      split
      · exact ih true free.2
      · split
        · exact ih true free.2
        · exact quoteFree_cons.2 ⟨free.1, ih false free.2⟩

theorem quoteFree_markOutside (known : String → Bool) (before : Option Char) (inName : Bool)
    (free : QuoteFree cs) : QuoteFree (markOutside known before inName cs) := by
  induction cs generalizing before inName with
  | nil => exact quoteFree_nil
  | cons c cs ih =>
      rw [quoteFree_cons] at free
      rw [markOutside]
      split
      · intro d hd
        rcases List.mem_append.1 hd with hd | hd
        · exact (isAtomChar_facts (isAtomChar_of_isNameRest (isNameRest_of_mem_marker _ d hd))).1
        · exact quoteFree_cons.2 ⟨free.1, ih _ _ free.2⟩ d hd
      · exact quoteFree_cons.2 ⟨free.1, ih _ _ free.2⟩

theorem needsMarker_eq_false_iff : needsMarker known name = false ↔
    known (String.ofList name) = true ∨ futureMarker.toList <+: name ∨
      ∃ c ∈ name, c.isLower = true := by
  simp only [needsMarker, Bool.not_eq_false', Bool.or_eq_true, List.any_eq_true,
    List.isPrefixOf_iff_prefix]
  rw [or_comm]
  exact or_congr_right or_comm

/-- A text has one list of quoted parts, and both passes keep it as it is.  Marking a second time
changes nothing, and every name that is called in a marked text is known, has the marker, or has a
letter in lower case. -/
theorem passes_keep_quotes_and_settle_calls (known : String → Bool) (cs : List Char) :
    (∃! parts, QuotedParts cs parts) ∧
    (∀ parts, QuotedParts cs parts →
      QuotedParts (collapseSeparators cs) parts ∧
        QuotedParts (markFutureFunctions known cs) parts) ∧
    markFutureFunctions known (markFutureFunctions known cs) = markFutureFunctions known cs ∧
    ∀ name, Calls (markFutureFunctions known cs) name →
      known (String.ofList name) = true ∨ futureMarker.toList <+: name ∨
        ∃ c ∈ name, c.isLower = true := by
  have again : markFutureFunctions known (markFutureFunctions known cs) =
      markFutureFunctions known cs := by
    simp only [markFutureFunctions_eq_scan]
    exact (markFrom_markFrom known cs).1 none
  refine ⟨existsUnique_quotedParts cs, fun parts h => ⟨?_, ?_⟩, again, ?_⟩
  · exact h.mapOutside fun _ free => quoteFree_collapseOutside false free
  · exact h.mapOutside fun _ free => quoteFree_markOutside known none false free
  · rintro name ⟨pre, post, split, outside, isName, starts⟩
    rw [markFutureFunctions_eq_scan known (markFutureFunctions known cs), split] at again
    exact needsMarker_eq_false_iff.1
      (settled_of_calls isName none none pre (by simp) again outside starts)

/-- A newer function behind a quoted sheet name, with what looks like a call in a string literal. -/
theorem quotes_and_calls_of_let :
    markFutureFunctions isKnownFunction "'Q''s'!A1+LET(\"IFS(\"\"\", SUM(1))".toList =
        "'Q''s'!A1+_xlfn.LET(\"IFS(\"\"\", SUM(1))".toList ∧
      QuotedParts "'Q''s'!A1+_xlfn.LET(\"IFS(\"\"\", SUM(1))".toList
        ["'Q'".toList, "'s'".toList, "\"IFS(\"".toList, "\"\"".toList] ∧
      ∀ name, Calls "'Q''s'!A1+_xlfn.LET(\"IFS(\"\"\", SUM(1))".toList name →
        isKnownFunction (String.ofList name) = true ∨ futureMarker.toList <+: name ∨
          ∃ c ∈ name, c.isLower = true := by
  have marked : markFutureFunctions isKnownFunction "'Q''s'!A1+LET(\"IFS(\"\"\", SUM(1))".toList =
      "'Q''s'!A1+_xlfn.LET(\"IFS(\"\"\", SUM(1))".toList := by
    decide +kernel
  obtain ⟨-, kept, -, calls⟩ := passes_keep_quotes_and_settle_calls isKnownFunction
    "'Q''s'!A1+LET(\"IFS(\"\"\", SUM(1))".toList
  rw [marked] at kept calls
  exact ⟨marked, (kept _ (quotedParts_iff.2 (by decide +kernel))).2, calls⟩

end Spreadsheet.Formula
