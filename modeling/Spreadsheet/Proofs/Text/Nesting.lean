import Mathlib

/-!
# Quotes and brackets

When the quotes of a text are closed and its brackets pair up, for any choice of quote marks and
brackets.  A quote mark opens a quoted part that the next character of the same kind closes, and
brackets inside a quoted part do not count.  The number of open brackets is followed from left to
right: it must not fall below zero and is zero at the end.
-/

namespace Spreadsheet.Text

/-- The characters that quote and the characters that open and close brackets. -/
structure Nesting where
  marks : Char → Bool
  opens : Char → Bool
  closes : Char → Bool

namespace Nesting

variable (n : Nesting)

/-- The quote that is open behind a character. -/
def behind (quote : Option Char) (c : Char) : Option Char :=
  match quote with
  | some q => if c = q then none else some q
  | none => if n.marks c then some c else none

/-- The quote that is open at the end of a text that starts inside the given one. -/
def quote (quote : Option Char) (cs : List Char) : Option Char :=
  cs.foldl n.behind quote

/-- By how much a character changes the number of open brackets. -/
def weight (quote : Option Char) (c : Char) : Int :=
  if quote.isSome then 0 else if n.opens c then 1 else if n.closes c then -1 else 0

/-- How many more brackets a text opens than it closes. -/
def depth (quote : Option Char) : List Char → Int
  | [] => 0
  | c :: rest => n.weight quote c + depth (n.behind quote c) rest

/-- Whether the quotes of a text are closed and its brackets pair up. -/
structure Level (cs : List Char) : Prop where
  closed : n.quote none cs = none
  floor : ∀ front, front <+: cs → 0 ≤ n.depth none front
  total : n.depth none cs = 0

/-- Whether a text that starts some brackets deep leaves the last of them at its end at the
earliest. -/
def StaysInside (quote : Option Char) (start : Int) (cs : List Char) : Prop :=
  ∀ front, front <+: cs → front ≠ cs → 0 < start + n.depth quote front

variable {n} {quote : Option Char} {c o : Char} {cs front inner back : List Char} {start : Int}

@[simp] theorem quote_nil : n.quote quote [] = quote :=
  rfl

@[simp] theorem quote_cons : n.quote quote (c :: cs) = n.quote (n.behind quote c) cs :=
  rfl

@[simp] theorem quote_append : n.quote quote (front ++ back) = n.quote (n.quote quote front) back :=
  List.foldl_append

@[simp] theorem depth_nil : n.depth quote [] = 0 :=
  rfl

@[simp] theorem depth_cons :
    n.depth quote (c :: cs) = n.weight quote c + n.depth (n.behind quote c) cs :=
  rfl

@[simp] theorem depth_append :
    n.depth quote (front ++ back) = n.depth quote front + n.depth (n.quote quote front) back := by
  induction front generalizing quote with
  | nil => simp
  | cons c front ih => simp [ih, add_assoc]

theorem neg_one_le_weight : -1 ≤ n.weight quote c := by
  unfold weight
  split_ifs <;> decide

/-- Only outside quotes is a bracket closed. -/
theorem eq_none_of_weight_neg (h : n.weight quote c < 0) : quote = none := by
  cases quote with
  | none => rfl
  | some q => simp [weight] at h

instance : DecidablePred n.Level := fun cs =>
  decidable_of_iff
    (n.quote none cs = none ∧ (∀ front ∈ cs.inits, 0 ≤ n.depth none front) ∧ n.depth none cs = 0)
    ⟨fun ⟨closed, floor, total⟩ =>
      ⟨closed, fun front h => floor front ((List.mem_inits front cs).2 h), total⟩,
      fun ⟨closed, floor, total⟩ =>
      ⟨closed, fun front h => floor front ((List.mem_inits front cs).1 h), total⟩⟩

/-! ## Characters that are neither quote marks nor brackets -/

theorem marks_of_mem_quote (marks : ∀ q ∈ quote, n.marks q = true) :
    ∀ q ∈ n.quote quote cs, n.marks q = true := by
  induction cs generalizing quote with
  | nil => exact marks
  | cons c cs ih =>
      refine ih fun q hq => ?_
      cases quote with
      | none =>
          have same : n.marks c = true ∧ c = q := by simpa [behind] using hq
          exact same.2 ▸ same.1
      | some q' =>
          have same : c ≠ q' ∧ q' = q := by simpa [behind] using hq
          exact same.2 ▸ marks q' rfl

theorem quote_unmarked (marks : ∀ q ∈ quote, n.marks q = true)
    (unmarked : ∀ c ∈ cs, n.marks c = false) : n.quote quote cs = quote := by
  induction cs with
  | nil => rfl
  | cons c cs ih =>
      rw [List.forall_mem_cons] at unmarked
      have kept : n.behind quote c = quote := by
        cases quote with
        | none => simp [behind, unmarked.1]
        | some q =>
            have other : c ≠ q := by
              rintro rfl
              rw [marks c rfl] at unmarked
              cases unmarked.1
            simp [behind, other]
      rw [quote_cons, kept, ih unmarked.2]

theorem depth_unbracketed (opens : ∀ c ∈ cs, n.opens c = false)
    (closes : ∀ c ∈ cs, n.closes c = false) : n.depth quote cs = 0 := by
  induction cs generalizing quote with
  | nil => rfl
  | cons c cs ih =>
      rw [List.forall_mem_cons] at opens closes
      have level : n.weight quote c = 0 := by simp [weight, opens.1, closes.1]
      rw [depth_cons, level, ih opens.2 closes.2, add_zero]

/-- A part with none of these characters before and behind it is level if the whole is. -/
theorem Level.middle (h : n.Level (front ++ (cs ++ back)))
    (hfront : ∀ c ∈ front, n.marks c = false ∧ n.opens c = false ∧ n.closes c = false)
    (hback : ∀ c ∈ back, n.marks c = false ∧ n.opens c = false ∧ n.closes c = false) :
    n.Level cs := by
  have before : n.quote none front = none :=
    quote_unmarked (by simp) fun c hc => (hfront c hc).1
  have flat (quote : Option Char) : n.depth quote front = 0 :=
    depth_unbracketed (fun c hc => (hfront c hc).2.1) fun c hc => (hfront c hc).2.2
  have behind : n.quote (n.quote none cs) back = n.quote none cs :=
    quote_unmarked (marks_of_mem_quote (by simp)) fun c hc => (hback c hc).1
  have flat' (quote : Option Char) : n.depth quote back = 0 :=
    depth_unbracketed (fun c hc => (hback c hc).2.1) fun c hc => (hback c hc).2.2
  refine ⟨?_, fun part hpart => ?_, ?_⟩
  · simpa [before, behind] using h.closed
  · have within : front ++ part <+: front ++ (cs ++ back) :=
      (List.prefix_append_right_inj front).2 (hpart.trans (List.prefix_append cs back))
    simpa [before, flat] using h.floor _ within
  · simpa [before, flat, flat'] using h.total

/-! ## The bracket that a text starts with -/

theorem staysInside_nil : n.StaysInside quote start [] := by
  intro front before proper
  exact absurd (List.prefix_nil.1 before) proper

theorem staysInside_cons : n.StaysInside quote start (c :: cs) ↔
    0 < start ∧ n.StaysInside (n.behind quote c) (start + n.weight quote c) cs := by
  constructor
  · intro h
    refine ⟨by simpa using h [] List.nil_prefix (by simp), fun front before proper => ?_⟩
    have := h (c :: front) (List.cons_prefix_cons.2 ⟨rfl, before⟩) (by simpa using proper)
    rwa [depth_cons, ← add_assoc] at this
  · rintro ⟨positive, h⟩ front before proper
    cases front with
    | nil => simpa using positive
    | cons d front =>
        obtain ⟨rfl, within⟩ := List.cons_prefix_cons.1 before
        rw [depth_cons, ← add_assoc]
        exact h front within (by simpa using proper)

/-- In a level text that starts with a bracket, what lies between that bracket and the last character
is level exactly if the bracket is open up to there. -/
theorem Level.inner_iff (h : n.Level (o :: (inner ++ [c]))) (unmarked : n.marks o = false)
    (opens : n.opens o = true) : n.Level inner ↔ n.StaysInside none 1 (inner ++ [c]) := by
  have opening : n.behind none o = none := by simp [behind, unmarked]
  have one : n.weight none o = 1 := by simp [weight, opens]
  have total : 1 + (n.depth none inner + n.weight (n.quote none inner) c) = 0 := by
    simpa [opening, one] using h.total
  constructor
  · intro level front before proper
    have within : front <+: inner :=
      (List.prefix_concat_iff.1 before).resolve_left proper
    have := level.floor front within
    omega
  · intro stays
    have above (front : List Char) (within : front <+: inner) : 0 ≤ n.depth none front := by
      have proper : front ≠ inner ++ [c] := by
        rintro rfl
        simpa using within.length_le
      have := stays front (within.trans (List.prefix_append inner [c])) proper
      omega
    have last := above inner List.prefix_rfl
    have least : -1 ≤ n.weight (n.quote none inner) c := neg_one_le_weight
    refine ⟨eq_none_of_weight_neg (c := c) (n := n) (by omega), above, by omega⟩

end Nesting

end Spreadsheet.Text
