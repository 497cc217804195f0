import Spreadsheet.Template.Prepared
import Spreadsheet.Proofs.Monad

/-!
# Expanding placeholders

A template and its expansion, side by side: each bracketed run that is no indexing has become the
look-up of its key, and every other character has been kept.
-/

namespace Spreadsheet.Template

open Spreadsheet.Text

/-! ## Bracketed runs -/

/-- Whether no bracket or parenthesis is to be seen at a character. -/
def Masked.IsPlain (m : Masked) : Prop :=
  m.shown ∉ ['[', ']', '(', ')']

theorem Masked.eq_of_shown {m : Masked} {c : Char} (h : m.shown = c) (visible : c ≠ ' ') :
    m = ⟨c, false⟩ := by
  obtain ⟨d, hidden⟩ := m
  cases hidden with
  | true => exact absurd h.symm visible
  | false => exact congrArg (Masked.mk · false) h

/-- Whether a masked text starts with a bracketed run of the characters `inner`, some at least, with
`after` behind it. -/
structure Bracketed (ms inner after : List Masked) : Prop where
  text : ms = ⟨'[', false⟩ :: (inner ++ ⟨']', false⟩ :: after)
  plain : ∀ m ∈ inner, m.IsPlain
  some_inner : inner ≠ []

/-- A bracketed run as it is written. -/
def runText (inner : List Masked) : List Char :=
  '[' :: (inner.map (·.char) ++ [']'])

theorem byteLength_runText (inner : List Masked) :
    byteLength (runText inner) = byteLength (inner.map (·.char)) + 2 := by
  have opening : '['.utf8Size = 1 := rfl
  have closing : ']'.utf8Size = 1 := rfl
  simp only [runText, byteLength_cons, byteLength_append, byteLength_nil]
  omega

theorem Bracketed.split {ms inner after : List Masked} (run : Bracketed ms inner after) :
    ∃ front, ms = front ++ after ∧ front.map (·.char) = runText inner := by
  refine ⟨⟨'[', false⟩ :: (inner ++ [⟨']', false⟩]), ?_, ?_⟩
  · rw [run.text]
    simp
  · simp [runText]

section Runs

variable {before : Option Char} {position : Nat} {opened : Option OpenRun} {m : Masked}
  {ms inner after rest : List Masked}

theorem nextOpen_plain (h : m.IsPlain) : nextOpen before position opened m =
    opened.map fun run => { run with reversed := m.char :: run.reversed } := by
  simp only [Masked.IsPlain, List.mem_cons, not_or] at h
  unfold nextOpen
  split <;> simp_all

theorem closedRun_of_ne (h : m.shown ≠ ']') : closedRun position opened m = [] := by
  unfold closedRun
  split
  · exact absurd ‹_› h
  · rfl

theorem closedRun_none : closedRun position none m = [] := by
  unfold closedRun
  split
  · rename_i same
    cases same
  · rfl

theorem runsFrom_plain (h : m.IsPlain) : runsFrom before position opened (m :: rest) =
    runsFrom (some m.shown) (position + m.char.utf8Size)
      (opened.map fun run => { run with reversed := m.char :: run.reversed }) rest := by
  have other : m.shown ≠ ']' := fun same => h (by simp [same])
  rw [runsFrom, closedRun_of_ne other, nextOpen_plain h, List.nil_append]

theorem runsFrom_inner (plain : ∀ m ∈ inner, m.IsPlain) (reversed : List Char) (start : Nat)
    (follows : Option Char) :
    runsFrom before position (some ⟨reversed, start, follows⟩) (inner ++ ⟨']', false⟩ :: after) =
      (if reversed.reverse ++ inner.map (·.char) = [] then []
        else [⟨reversed.reverse ++ inner.map (·.char), start,
          position + byteLength (inner.map (·.char)) + 1, follows⟩]) ++
        runsFrom (some ']') (position + byteLength (inner.map (·.char)) + 1) none after := by
  induction inner generalizing before position reversed with
  | nil =>
      cases reversed with
      | nil => rfl
      | cons c cs =>
          rw [if_neg (by simp)]
          simp only [List.map_nil, List.append_nil]
          rfl
  | cons m inner ih =>
      rw [List.cons_append, runsFrom_plain (plain m (by simp))]
      simp only [Option.map_some]
      rw [ih fun x hx => plain x (List.mem_cons_of_mem _ hx)]
      simp [Nat.add_assoc]

theorem runsFrom_none_inner (plain : ∀ m ∈ inner, m.IsPlain) :
    runsFrom before position none (inner ++ ⟨']', false⟩ :: after) =
      runsFrom (some ']') (position + byteLength (inner.map (·.char)) + 1) none after := by
  induction inner generalizing before position with
  | nil => rfl
  | cons m inner ih =>
      rw [List.cons_append, runsFrom_plain (plain m (by simp))]
      simp only [Option.map_none]
      rw [ih fun x hx => plain x (List.mem_cons_of_mem _ hx)]
      simp [Nat.add_assoc]

/-- A run that is never closed makes no difference. -/
theorem runsFrom_open (run : OpenRun)
    (endless : ∀ inner after, (∀ m ∈ inner, m.IsPlain) → ms ≠ inner ++ ⟨']', false⟩ :: after) :
    runsFrom before position (some run) ms = runsFrom before position none ms := by
  induction ms generalizing before position run with
  | nil => rfl
  | cons m rest ih =>
      by_cases plain : m.IsPlain
      · rw [runsFrom_plain plain, runsFrom_plain plain]
        refine ih _ fun inner after inners same => ?_
        refine endless (m :: inner) after ?_ (by rw [same]; rfl)
        simpa using ⟨plain, inners⟩
      · have closes : m.shown ≠ ']' := by
          intro same
          refine endless [] rest (by simp) ?_
          rw [Masked.eq_of_shown same (by decide)]
          rfl
        rw [runsFrom, runsFrom, closedRun_of_ne closes, closedRun_of_ne closes]
        suffices nextOpen before position (some run) m = nextOpen before position none m by rw [this]
        simp only [Masked.IsPlain, Decidable.not_not, List.mem_cons, List.not_mem_nil,
          or_false] at plain
        unfold nextOpen
        rcases plain with same | same | same | same <;> simp [same]

theorem runsFrom_bracketed (run : Bracketed ms inner after) :
    runsFrom before position none ms =
      ⟨inner.map (·.char), position, position + byteLength (runText inner), before⟩ ::
        runsFrom (some ']') (position + byteLength (runText inner)) none after := by
  have size : '['.utf8Size = 1 := rfl
  have opens : nextOpen before position none ⟨'[', false⟩ = some ⟨[], position, before⟩ := rfl
  have places : position + 1 + byteLength (inner.map (·.char)) + 1 =
      position + byteLength (runText inner) := by
    rw [byteLength_runText]
    omega
  rw [run.text, runsFrom, closedRun_none, opens, List.nil_append, runsFrom_inner run.plain,
    if_neg (by simpa using run.some_inner), size, places]
  rfl

theorem runsFrom_of_not_bracketed (h : ∀ inner after, ¬Bracketed (m :: rest) inner after) :
    runsFrom before position none (m :: rest) =
      runsFrom (some m.shown) (position + m.char.utf8Size) none rest := by
  rw [runsFrom, closedRun_none, List.nil_append]
  by_cases opens : m.shown = '['
  · obtain rfl := Masked.eq_of_shown opens (by decide)
    show runsFrom _ _ (some ⟨[], position, before⟩) rest = _
    by_cases closes : ∃ inner after, (∀ m ∈ inner, m.IsPlain) ∧ rest = inner ++ ⟨']', false⟩ :: after
    · obtain ⟨inner, after, plain, rfl⟩ := closes
      obtain rfl : inner = [] := by
        by_contra some_inner
        exact h inner after ⟨rfl, plain, some_inner⟩
      rfl
    · exact runsFrom_open _ fun inner after plain same => closes ⟨inner, after, plain, same⟩
  · suffices nextOpen before position none m = none by rw [this]
    unfold nextOpen
    split
    · contradiction
    all_goals rfl

/-- The runs that are no indexing. -/
def keyRuns (before : Option Char) (position : Nat) (ms : List Masked) : List Run :=
  (runsFrom before position none ms).filter (!indexesAfter ·.follows)

theorem keyRuns_bracketed (run : Bracketed ms inner after) (opens : indexesAfter before = false) :
    keyRuns before position ms =
      ⟨inner.map (·.char), position, position + byteLength (runText inner), before⟩ ::
        keyRuns (some ']') (position + byteLength (runText inner)) after := by
  rw [keyRuns, runsFrom_bracketed run, List.filter_cons_of_pos (by simp [opens]), keyRuns]

theorem keyRuns_other
    (h : indexesAfter before = false → ∀ inner after, ¬Bracketed (m :: rest) inner after) :
    keyRuns before position (m :: rest) =
      keyRuns (some m.shown) (position + m.char.utf8Size) rest := by
  by_cases bracketed : ∃ inner after, Bracketed (m :: rest) inner after
  · obtain ⟨inner, after, run⟩ := bracketed
    have indexes : indexesAfter before = true := by
      by_contra opens
      exact h (by simpa using opens) inner after run
    obtain ⟨rfl, rfl⟩ : m = ⟨'[', false⟩ ∧ rest = inner ++ ⟨']', false⟩ :: after := by
      simpa using run.text
    have places : position + byteLength (runText inner) =
        position + '['.utf8Size + byteLength (inner.map (·.char)) + 1 := by
      have size : '['.utf8Size = 1 := rfl
      rw [byteLength_runText]
      omega
    rw [keyRuns, runsFrom_bracketed run, List.filter_cons_of_neg (by simp [indexes]), keyRuns,
      runsFrom_none_inner run.plain, places]
  · rw [keyRuns, runsFrom_of_not_bracketed fun inner after run => bracketed ⟨inner, after, run⟩,
      keyRuns]

end Runs

/-! ## Expansions -/

/-- Whether a text with these keys in it is the expansion of a masked template that follows
`before`. -/
inductive Expands : Option Char → List Masked → List Key → List Char → Prop
  | nil {before : Option Char} : Expands before [] [] []
  | lookup {before : Option Char} {ms inner rest : List Masked} {key : Key} {keys : List Key}
      {text : List Char} (run : Bracketed ms inner rest) (opens : indexesAfter before = false)
      (hkey : readKey (inner.map (·.char)) = some key) (more : Expands (some ']') rest keys text) :
      Expands before ms (key :: keys) ((lookupText key).toList ++ text)
  | char {before : Option Char} {m : Masked} {rest : List Masked} {keys : List Key}
      {text : List Char}
      (other : indexesAfter before = false → ∀ inner after, ¬Bracketed (m :: rest) inner after)
      (more : Expands (some m.shown) rest keys text) :
      Expands before (m :: rest) keys (m.char :: text)

/-- Whether a placeholder stands in a masked text that starts at byte `position`: as a run of
characters between two brackets that are no part of a string literal. -/
def Placeholder.StandsIn (p : Placeholder) (position : Nat) (ms : List Masked) : Prop :=
  ∃ front run inner after, ms = front ++ run ∧ Bracketed run inner after ∧
    p.start = position + byteLength (front.map (·.char)) ∧
    readKey (inner.map (·.char)) = some p.key

/-- The placeholder of a run that is no indexing. -/
def Run.placeholder (template : String) (run : Run) : Except TemplateError Placeholder :=
  match readKey run.inner with
  | some key => pure { key, start := run.start, stop := run.stop }
  | none => throw (.emptyPlaceholder template)

theorem Run.placeholder_eq_ok {template : String} {run : Run} {p : Placeholder}
    (h : run.placeholder template = .ok p) :
    readKey run.inner = some p.key ∧ p.start = run.start ∧ p.stop = run.stop := by
  unfold Run.placeholder at h
  split at h
  · rename_i key hkey
    cases h
    exact ⟨hkey, rfl, rfl⟩
  · cases h

/-- Whether placeholders are the bracketed runs of a masked text that starts at byte `position` behind
the character `before`, those left out that are indexing. -/
inductive Spans : Option Char → Nat → List Masked → List Placeholder → Prop
  | nil {before : Option Char} {position : Nat} : Spans before position [] []
  | run {before : Option Char} {position : Nat} {ms inner rest : List Masked} {p : Placeholder}
      {found : List Placeholder} (run : Bracketed ms inner rest) (opens : indexesAfter before = false)
      (hkey : readKey (inner.map (·.char)) = some p.key) (start : p.start = position)
      (stop : p.stop = position + byteLength (runText inner))
      (more : Spans (some ']') p.stop rest found) : Spans before position ms (p :: found)
  | char {before : Option Char} {position : Nat} {m : Masked} {rest : List Masked}
      {found : List Placeholder}
      (other : indexesAfter before = false → ∀ inner after, ¬Bracketed (m :: rest) inner after)
      (more : Spans (some m.shown) (position + m.char.utf8Size) rest found) :
      Spans before position (m :: rest) found

theorem spans_keyRuns {template : String} {ms : List Masked} {before : Option Char}
    {position : Nat} {found : List Placeholder}
    (h : (keyRuns before position ms).mapM (Run.placeholder template) = .ok found) :
    Spans before position ms found := by
  generalize size : ms.length = n
  induction n using Nat.strong_induction_on generalizing ms before position found with
  | h n ih =>
  cases ms with
  | nil =>
      cases h
      exact .nil
  | cons m rest =>
      by_cases here : indexesAfter before = false ∧ ∃ inner after, Bracketed (m :: rest) inner after
      · obtain ⟨opens, inner, after, run⟩ := here
        rw [keyRuns_bracketed run opens, List.mapM_cons] at h
        obtain ⟨p, hp, h⟩ := bind_eq_ok_iff.1 h
        obtain ⟨more, hmore, h⟩ := bind_eq_ok_iff.1 h
        cases h
        obtain ⟨hkey, start, stop⟩ := Run.placeholder_eq_ok hp
        obtain ⟨front, whole, text⟩ := run.split
        have short : after.length < n := by
          have some_front : front ≠ [] := by
            rintro rfl
            cases text
          have := List.length_pos_of_ne_nil some_front
          rw [← size, whole, List.length_append]
          omega
        dsimp only at hkey start stop
        rw [← stop] at hmore
        exact .run run opens hkey start stop (ih after.length short hmore rfl)
      · have other : indexesAfter before = false →
            ∀ inner after, ¬Bracketed (m :: rest) inner after :=
          fun opens inner after run => here ⟨opens, inner, after, run⟩
        rw [keyRuns_other other] at h
        exact .char other (ih rest.length (by simp [← size]) h rfl)

/-- The placeholders of a template are the bracketed runs in its mask. -/
theorem placeholders_spans {template : String} {found : List Placeholder}
    (h : placeholders template = .ok found) :
    ∃ ms, mask template.toList = some ms ∧ Spans none 0 ms found := by
  unfold placeholders at h
  split at h
  case h_2 => cases h
  case h_1 ms hms =>
    dsimp only at h
    split at h
    case h_1 => cases h
    case h_2 =>
      split at h
      case isTrue => cases h
      case isFalse =>
        obtain ⟨keys, hkeys, h⟩ := bind_eq_ok_iff.1 h
        split at h
        case isTrue => cases h
        case isFalse =>
          cases h
          exact ⟨ms, hms, spans_keyRuns hkeys⟩

theorem expandFrom_cons {c : Char} {cs : List Char} {position : Nat} {found : List Placeholder}
    (behind : ∀ p ∈ found, position + c.utf8Size ≤ p.start) :
    expandFrom position (c :: cs) found = c :: expandFrom (position + c.utf8Size) cs found := by
  cases found with
  | nil => rfl
  | cons p found =>
      have start := behind p (by simp)
      have size := c.utf8Size_pos
      obtain ⟨k, hk⟩ : ∃ k, p.start - position = k + 1 := ⟨p.start - position - 1, by omega⟩
      have left : k + 1 - c.utf8Size = p.start - (position + c.utf8Size) := by omega
      simp only [expandFrom, hk, splitAtByte, left]
      rfl

theorem expandFrom_lookup {p : Placeholder} {run after : List Char} {position : Nat}
    {found : List Placeholder} (start : p.start = position)
    (stop : p.stop = position + byteLength run) :
    expandFrom position (run ++ after) (p :: found) =
      (lookupText p.key).toList ++ expandFrom p.stop after found := by
  have none : p.start - position = 0 := by omega
  have all : p.stop - p.start = byteLength run := by omega
  simp only [expandFrom, none, splitAtByte, all, splitAtByte_byteLength]
  rfl

section

variable {before : Option Char} {position : Nat} {ms : List Masked} {found : List Placeholder}

theorem Spans.behind (h : Spans before position ms found) : ∀ p ∈ found, position ≤ p.start := by
  induction h with
  | nil => simp
  | run run opens hkey start stop more ih =>
      intro q hq
      rcases List.mem_cons.1 hq with rfl | hq
      · exact start.ge
      · have := ih q hq
        omega
  | char other more ih =>
      intro p hp
      have := ih p hp
      omega

/-- Each placeholder covers a bracketed run. -/
theorem Spans.bracketed (h : Spans before position ms found) :
    ∀ p ∈ found, ∃ front tail inner after, ms = front ++ tail ∧ Bracketed tail inner after ∧
      p.start = position + byteLength (front.map (·.char)) ∧
      p.stop = p.start + byteLength (runText inner) ∧ readKey (inner.map (·.char)) = some p.key := by
  induction h with
  | nil => simp
  | @run before position ms inner rest p found run opens hkey start stop more ih =>
      intro q hq
      rcases List.mem_cons.1 hq with rfl | hq
      · exact ⟨[], _, inner, rest, rfl, run, by simp [start], by rw [stop, start], hkey⟩
      · obtain ⟨front, whole, text⟩ := run.split
        obtain ⟨between, tail, inner', after, rfl, bracketed, start', rest⟩ := ih q hq
        refine ⟨front ++ between, _, inner', after, by simp [whole], bracketed, ?_, rest⟩
        rw [start', stop, List.map_append, byteLength_append, text]
        omega
  | @char before position m rest found other more ih =>
      intro p hp
      obtain ⟨front, tail, inner, after, rfl, bracketed, start, rest⟩ := ih p hp
      refine ⟨m :: front, tail, inner, after, rfl, bracketed, ?_, rest⟩
      rw [start, List.map_cons, byteLength_cons]
      omega

theorem Spans.standsIn (h : Spans before position ms found) :
    ∀ p ∈ found, p.StandsIn position ms := by
  intro p hp
  obtain ⟨front, tail, inner, after, whole, bracketed, start, -, hkey⟩ := h.bracketed p hp
  exact ⟨front, tail, inner, after, whole, bracketed, start, hkey⟩

theorem Spans.expands (h : Spans before position ms found) :
    Expands before ms (found.map (·.key)) (expandFrom position (ms.map (·.char)) found) := by
  induction h with
  | nil => exact .nil
  | run run opens hkey start stop more ih =>
      obtain ⟨front, whole, text⟩ := run.split
      rw [whole, List.map_append, text, expandFrom_lookup start stop, ← whole]
      exact .lookup run opens hkey ih
  | char other more ih =>
      rw [List.map_cons, expandFrom_cons more.behind]
      exact .char other ih

end

theorem placeholders_expands {template : String} {found : List Placeholder}
    (h : placeholders template = .ok found) :
    ∃ ms, mask template.toList = some ms ∧
      Expands none ms (found.map (·.key)) (expand template found).toList ∧
      ∀ p ∈ found, p.StandsIn 0 ms := by
  obtain ⟨ms, hms, spans⟩ := placeholders_spans h
  have expands := spans.expands
  rw [map_char_maskFrom hms] at expands
  exact ⟨ms, hms, by simpa [expand] using expands, spans.standsIn⟩

end Spreadsheet.Template
