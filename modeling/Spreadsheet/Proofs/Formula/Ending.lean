import Spreadsheet.Proofs.Formula.Unbounded

/-!
# Writing a formula ends

From some number of calls on, every trial of the writer without bounds is finished, and its outcome is
that of the writer with bounds.  A cell or a block on the way counts as deeper, and between two such steps a formula
is only taken apart: what is left to do gets less first by the depth that is left, and then by the size
of the formula.

The text of a formula holds the content of the cells that are on no sheet, and where that is a formula,
the content of the cells that this one mentions.  A chain goes from one such cell to the next, and the
depth limits how long it can be.
-/

namespace Spreadsheet

open Formula Store

/-! ## Cells that are put into each other -/

namespace Store

variable {s : Store} {l l' : List CellId} {chain : List CellId} {c : CellId}

/-- Whether a cell is on no sheet, and there is content to be written in its place. -/
structure Loose (s : Store) (c : CellId) : Prop where
  unplaced : (s.cell c).location = none
  content : ((s.cell c).value.isEmpty && (s.cell c).formula.isNone) = false

mutual

/-- The cells whose location or content stands in the text of a formula.  A block stands for its cells
if it has no corners on a sheet. -/
def mentions (s : Store) : Formula → List CellId
  | .literal _ => []
  | .ref c => [c]
  | .range (.cell c) _ => [c]
  | .range target includeHeaders =>
    if (s.blockRange? target includeHeaders).isSome then [] else s.blockCells target includeHeaders
  | .span first last => [first, last]
  | .unary _ operand => s.mentions operand
  | .binary _ lhs rhs => s.mentions lhs ++ s.mentions rhs
  | .call _ args => s.allMentions args
  | .list items => s.allMentions items

/-- The cells whose location or content stands in the texts of some formulas. -/
def allMentions (s : Store) : List Formula → List CellId
  | [] => []
  | f :: rest => s.mentions f ++ s.allMentions rest

end

/-- Whether cells are put into each other, the first of them being one of a list and each of the others
being mentioned by the formula of the one before. -/
inductive Chain (s : Store) : List CellId → List CellId → Prop
  | last {l : List CellId} {c : CellId} (here : c ∈ l) (loose : s.Loose c) : Chain s l [c]
  | cons {l chain : List CellId} {c : CellId} {f : Formula} (here : c ∈ l) (loose : s.Loose c)
      (formula : (s.cell c).formula = some f) (rest : Chain s (s.mentions f) chain) :
      Chain s l (c :: chain)

theorem chain_iff_exists : Chain s l chain ↔ ∃ c ∈ l, Chain s [c] chain := by
  constructor
  · rintro (⟨here, loose⟩ | ⟨here, loose, formula, rest⟩)
    · exact ⟨_, here, .last (by simp) loose⟩
    · exact ⟨_, here, .cons (by simp) loose formula rest⟩
  · rintro ⟨c, hc, ⟨here, loose⟩ | ⟨here, loose, formula, rest⟩⟩
    · exact .last (List.mem_singleton.1 here ▸ hc) loose
    · exact .cons (List.mem_singleton.1 here ▸ hc) loose formula rest

theorem chain_append : Chain s (l ++ l') chain ↔ Chain s l chain ∨ Chain s l' chain := by
  rw [chain_iff_exists, chain_iff_exists (l := l), chain_iff_exists (l := l')]
  simp only [List.mem_append, or_and_right, exists_or]

theorem not_loose_of_placed {a : Location} (h : (s.cell c).location = some a) : ¬s.Loose c := by
  intro loose
  rw [loose.unplaced] at h
  cases h

/-- No chain starts where all cells have places or nothing to be put there. -/
theorem not_chain (h : ∀ c ∈ l, ¬s.Loose c) : ¬Chain s l chain := by
  rintro (⟨here, loose⟩ | ⟨here, loose, -, -⟩)
  · exact h _ here loose
  · exact h _ here loose

theorem not_chain_nil : ¬Chain s [] chain :=
  not_chain (by nofun)

/-- A chain ends at a cell without a formula. -/
theorem chain_content (loose : s.Loose c) (content : (s.cell c).formula = none) :
    Chain s [c] chain ↔ chain = [c] := by
  constructor
  · rintro (⟨here, -⟩ | ⟨here, -, formula, -⟩)
    · rw [List.mem_singleton.1 here]
    · rw [List.mem_singleton.1 here, content] at formula
      cases formula
  · rintro rfl
    exact .last (by simp) loose

/-- A chain goes on through the formula of a cell. -/
theorem chain_formula (loose : s.Loose c) {f : Formula} (formula : (s.cell c).formula = some f) :
    Chain s [c] chain ↔ chain = [c] ∨ ∃ rest, Chain s (s.mentions f) rest ∧ chain = c :: rest := by
  constructor
  · rintro (⟨here, -⟩ | ⟨here, -, formula', rest⟩)
    · exact .inl (by rw [List.mem_singleton.1 here])
    · rw [List.mem_singleton.1 here] at formula' ⊢
      rw [formula] at formula'
      obtain rfl := Option.some.inj formula'
      exact .inr ⟨_, rest, rfl⟩
  · rintro (rfl | ⟨rest, h, rfl⟩)
    · exact .last (by simp) loose
    · exact .cons (by simp) loose formula h

end Store

variable {s : Store}

/-! ## What is recorded -/

/-- Whether an inlining records a text in which some cells are mentioned: its chains are those that
start at one of the cells, and none is longer than there is room for. -/
structure Inlining.Shows (s : Store) (room : Nat) (l : List CellId) (w : Inlining) (text : String) :
    Prop where
  text : w.text = text
  chains : ∀ chain, chain ∈ w.chains ↔ s.Chain l chain
  short : ∀ chain ∈ w.chains, chain.length ≤ room

/-- Whether inlinings record texts in which some cells are mentioned. -/
inductive Inlining.ShowAll (s : Store) (room : Nat) :
    List CellId → List Inlining → List String → Prop
  | nil : ShowAll s room [] [] []
  | cons {l l' : List CellId} {w : Inlining} {text : String} {parts : List Inlining}
      {texts : List String} (first : w.Shows s room l text) (rest : ShowAll s room l' parts texts) :
      ShowAll s room (l ++ l') (w :: parts) (text :: texts)

namespace Inlining

variable {room : Nat} {l l' : List CellId} {w w' : Inlining} {text text' : String}

theorem shows_plain (none : ∀ chain, ¬s.Chain l chain) (room : Nat) (text : String) :
    Shows s room l { text } text :=
  ⟨rfl, fun chain => iff_of_false (by nofun) (none chain), by nofun⟩

theorem Shows.mono (h : w.Shows s room l text) {more : Nat} (le : room ≤ more) :
    w.Shows s more l text :=
  ⟨h.text, h.chains, fun chain hchain => (h.short chain hchain).trans le⟩

theorem Shows.map (h : w.Shows s room l text) (f : String → String) :
    Shows s room l { w with text := f w.text } (f text) :=
  ⟨congrArg f h.text, h.chains, h.short⟩

theorem Shows.append (h : w.Shows s room l text) (h' : w'.Shows s room l' text')
    (f : String → String → String) :
    Shows s room (l ++ l') { text := f w.text w'.text, chains := w.chains ++ w'.chains }
      (f text text') where
  text := by rw [h.text, h'.text]
  chains chain := by rw [List.mem_append, chain_append, h.chains, h'.chains]
  short chain hchain := (List.mem_append.1 hchain).elim (h.short chain) (h'.short chain)

theorem ShowAll.join {parts : List Inlining} {texts : List String}
    (h : ShowAll s room l parts texts) (f : List String → String) :
    Shows s room l (.join f parts) (f texts) := by
  induction h generalizing f with
  | nil => exact shows_plain (fun _ => not_chain_nil) room (f [])
  | @cons l l' w text parts texts first rest ih =>
      rw [← first.text]
      exact first.append (ih fun texts => f (w.text :: texts)) fun _ joined => joined

/-- The content of a cell that mentions no others. -/
theorem shows_content {c : CellId} (loose : s.Loose c) (content : (s.cell c).formula = none)
    (room : Nat) (text : String) : Shows s (room + 1) [c] { text, chains := [[c]] } text where
  text := rfl
  chains chain := by rw [chain_content loose content, List.mem_singleton]
  short chain hchain := by
    rw [List.mem_singleton.1 hchain]
    exact Nat.le_add_left 1 room

/-- The text of a formula, put in the place of its cell. -/
theorem Shows.within {c : CellId} {g : Formula} (h : w.Shows s room (s.mentions g) text)
    (loose : s.Loose c) (formula : (s.cell c).formula = some g) (f : String → String) :
    Shows s (room + 1) [c] { text := f w.text, chains := [c] :: w.chains.map (c :: ·) }
      (f text) where
  text := congrArg f h.text
  chains chain := by
    rw [chain_formula loose formula, List.mem_cons, List.mem_map]
    simp only [h.chains, eq_comm]
  short chain hchain := by
    rcases List.mem_cons.1 hchain with rfl | hchain
    · exact Nat.le_add_left 1 room
    · obtain ⟨inner, hinner, rfl⟩ := List.mem_map.1 hchain
      exact Nat.succ_le_succ (h.short inner hinner)

end Inlining

/-! ## Both writers end alike -/

namespace TrialM

open BuildM Inlining

variable {sheet : String} {depth : Nat}

/-- How long a chain can get that starts so many unplaced cells deep. -/
def room (depth : Nat) : Nat :=
  inlineLimit - depth + 1

theorem room_succ_le (depth : Nat) : room (depth + 1) ≤ room depth := by
  unfold room
  omega

theorem missing_endsAs {l : List CellId} (none : ∀ chain, ¬s.Chain l chain) (room : Nat)
    (what : String) : EndsAs s (Shows s room l)
      (fun _ => do return { text := ← ofBuild (missingText what) }) (missingText what) := by
  have written : EndsAs s (Shows s room l)
      (fun _ => do return { text := ← ofBuild (missingText what) }) (missingText what >>= pure) := by
    refine (EndsAs.ofBuild (missingText_keeps what)).bind fun w text same => .pure ?_
    rw [same]
    exact shows_plain none room text
  rwa [bind_pure] at written

/-! ### Cells and blocks -/

section

variable {cellText : CellId → BuildM String} (cells : ∀ c,
  EndsAs s (Shows s (room (depth + 1)) [c]) (fun calls => writeCell sheet calls (depth + 1) c)
    (cellText c))

include cells

theorem writeCells_endsAs (l : List CellId) :
    EndsAs s (ShowAll s (room (depth + 1)) l)
      (fun calls => l.mapM (writeCell sheet calls (depth + 1))) (l.mapM cellText) := by
  induction l with
  | nil => exact .pure .nil
  | cons c l ih =>
      simp only [List.mapM_cons]
      refine (cells c).bind fun w text first => ?_
      exact ih.bind fun parts texts rest => .pure (.cons first rest)

theorem writeUnplaced_endsAs (l : List CellId) (what : String) :
    EndsAs s (Shows s (room depth) l) (fun calls => writeUnplaced sheet calls depth l what)
      (unplacedText cellText l what) := by
  refine .next ?_
  simp only [writeUnplaced, unplacedText]
  refine .get_bind fun b _ => .ite (.throw_bind _ _ _) ?_
  cases l with
  | nil => exact missing_endsAs (fun _ => not_chain_nil) _ what
  | cons c l =>
      refine (EndsAs.ofBuild (warnInline_keeps what)).bind fun _ _ _ => ?_
      refine (writeCells_endsAs cells (c :: l)).bind fun parts texts h => .pure ?_
      exact (h.join ", ".intercalate).mono (room_succ_le depth)

theorem writeRange_endsAs (acyclic : s.Acyclic) {target : Element} (block : ∀ c, target ≠ .cell c)
    (includeHeaders : Bool) :
    EndsAs s (Shows s (room depth) (s.mentions (.range target includeHeaders)))
      (fun calls => writeRange sheet calls depth target includeHeaders)
      (rangeText cellText sheet target includeHeaders) := by
  refine .next ?_
  simp only [writeRange]
  rw [rangeText, mentions]
  · refine .get_bind fun b kept => ?_
    rw [kept]
    cases target with
    | cell c => exact absurd rfl (block c)
    | gap g => exact .throw _
    | expression e => exact .throw _
    | call c => exact .throw _
    | _ =>
        dsimp only
        refine .walk_bind (fun calls enough => acyclic.cornersIn_eq enough _ _) ?_
        cases s.blockRange? _ includeHeaders with
        | some corners => exact .pure (shows_plain (fun _ => not_chain_nil) _ _)
        | none =>
            refine .walk_bind (fun calls enough => acyclic.blockIn_eq enough _ _) ?_
            exact writeUnplaced_endsAs cells _ _
  · exact block

end

theorem writeCell_endsAs {inlined : Formula → BuildM String} {room : Nat}
    (formulas : ∀ f, EndsAs s (Shows s room (s.mentions f))
      (fun calls => writeAt sheet calls (depth + 1) f) (inlined f)) (c : CellId) :
    EndsAs s (Shows s (room + 1) [c]) (fun calls => writeCell sheet calls depth c)
      (placedText sheet inlined c) := by
  refine .next ?_
  simp only [writeCell, placedText]
  refine .get_bind fun b kept => ?_
  rw [kept]
  cases location : (s.cell c).location with
  | some l =>
      refine .pure (shows_plain (fun _ => not_chain fun d hd => ?_) _ _)
      rw [List.mem_singleton.1 hd]
      exact not_loose_of_placed location
  | none =>
      cases content : (s.cell c).value.isEmpty && (s.cell c).formula.isNone with
      | true =>
          refine missing_endsAs (fun _ => not_chain fun d hd loose => ?_) _ _
          rw [← List.mem_singleton.1 hd, loose.content] at content
          cases content
      | false =>
          refine .get_bind fun _ _ => .ite (.throw_bind _ _ _) ?_
          refine (EndsAs.ofBuild (warnInline_keeps _)).bind fun _ _ _ => ?_
          have loose : s.Loose c := ⟨location, content⟩
          cases formula : (s.cell c).formula with
          | none => exact .pure (shows_content loose formula room _)
          | some f =>
              refine (formulas f).bind fun w text h => .pure ?_
              exact h.within loose formula fun inner =>
                "(" ++ String.ofList (stripOuterParens inner.toList) ++ ")"

/-! ### Formulas -/

mutual

theorem writeAt_endsAs {cellText : Nat → CellId → BuildM String} (acyclic : s.Acyclic)
    (cells : ∀ d, depth ≤ d → ∀ c,
      EndsAs s (Shows s (room d) [c]) (fun calls => writeCell sheet calls d c) (cellText d c)) :
    ∀ f : Formula, EndsAs s (Shows s (room depth) (s.mentions f))
      (fun calls => writeAt sheet calls depth f)
      (renderAt cellText sheet depth f)
  | .literal value => by
      refine .next ?_
      simp only [writeAt]
      rw [renderAt, mentions]
      refine (EndsAs.ofBuild (checkDepth_keeps depth)).bind fun _ _ _ => ?_
      exact .pure (shows_plain (fun _ => not_chain_nil) _ _)
  | .ref c => by
      refine .next ?_
      simp only [writeAt]
      rw [renderAt, mentions]
      refine (EndsAs.ofBuild (checkDepth_keeps depth)).bind fun _ _ _ => ?_
      exact cells depth (Nat.le_refl _) c
  | .range target includeHeaders => by
      cases target with
      | cell c =>
          refine .next (.next ?_)
          simp only [writeAt, writeRange]
          rw [renderAt, mentions]
          refine (EndsAs.ofBuild (checkDepth_keeps depth)).bind fun _ _ _ => ?_
          exact .get_bind fun b _ => cells depth (Nat.le_refl _) c
      | _ =>
          refine .next ?_
          simp only [writeAt]
          rw [renderAt]
          · refine (EndsAs.ofBuild (checkDepth_keeps depth)).bind fun _ _ _ => ?_
            exact writeRange_endsAs (cells _ (Nat.le_succ depth)) acyclic (by nofun) includeHeaders
          · nofun
  | .span first last => by
      refine .next ?_
      simp only [writeAt]
      rw [renderAt, mentions]
      refine (EndsAs.ofBuild (checkDepth_keeps depth)).bind fun _ _ _ => ?_
      refine .get_bind fun b kept => ?_
      rw [kept]
      dsimp only
      have content := writeUnplaced_endsAs (cells _ (Nat.le_succ depth)) [first, last] "a cell span"
      cases begins : (s.cell first).location with
      | none => exact content
      | some a =>
          cases ends : (s.cell last).location with
          | none => exact content
          | some z =>
              refine .pure (shows_plain (fun _ => not_chain fun c hc => ?_) _ _)
              rcases List.mem_pair.1 hc with rfl | rfl
              · exact not_loose_of_placed begins
              · exact not_loose_of_placed ends
  | .unary op operand => by
      refine .next ?_
      simp only [writeAt]
      rw [renderAt, mentions]
      refine (EndsAs.ofBuild (checkDepth_keeps depth)).bind fun _ _ _ => ?_
      refine (writeAt_endsAs acyclic cells operand).bind fun w text h => .pure ?_
      exact h.map (unaryText op)
  | .binary op lhs rhs => by
      refine .next ?_
      simp only [writeAt]
      rw [renderAt, mentions]
      refine (EndsAs.ofBuild (checkDepth_keeps depth)).bind fun _ _ _ => ?_
      refine (writeAt_endsAs acyclic cells lhs).bind fun w text h => ?_
      refine (writeAt_endsAs acyclic cells rhs).bind fun w' text' h' => ?_
      exact .get_bind fun b _ => .pure (h.append h' (binaryText b.config.operatorSpacing op))
  | .call name args => by
      refine .next ?_
      simp only [writeAt]
      rw [renderAt, mentions]
      refine (EndsAs.ofBuild (checkDepth_keeps depth)).bind fun _ _ _ => ?_
      refine (writeAll_endsAs acyclic cells args).bind fun parts texts h => .pure ?_
      exact h.join fun texts => name ++ "(" ++ ", ".intercalate texts ++ ")"
  | .list items => by
      refine .next ?_
      simp only [writeAt]
      rw [renderAt, mentions]
      refine (EndsAs.ofBuild (checkDepth_keeps depth)).bind fun _ _ _ => ?_
      refine (writeAll_endsAs acyclic cells items).bind fun parts texts h => .pure ?_
      exact h.join ", ".intercalate

theorem writeAll_endsAs {cellText : Nat → CellId → BuildM String} (acyclic : s.Acyclic)
    (cells : ∀ d, depth ≤ d → ∀ c,
      EndsAs s (Shows s (room d) [c]) (fun calls => writeCell sheet calls d c) (cellText d c)) :
    ∀ l : List Formula, EndsAs s (ShowAll s (room depth) (s.allMentions l))
      (fun calls => l.mapM (writeAt sheet calls depth))
      (renderAll cellText sheet depth l)
  | [] => by
      simp only [List.mapM_nil]
      rw [renderAll, allMentions]
      exact .pure .nil
  | f :: rest => by
      simp only [List.mapM_cons]
      rw [renderAll, allMentions]
      refine (writeAt_endsAs acyclic cells f).bind fun w text first => ?_
      refine (writeAll_endsAs acyclic cells rest).bind fun parts texts others => ?_
      exact .pure (.cons first others)

end

/-! ### The limit -/

theorem checkDepth_of_lt (deep : inlineLimit < depth) : checkDepth depth = throw tooDeep :=
  if_pos deep

theorem writeAt_of_lt (deep : inlineLimit < depth) (sheet : String) (calls : Nat) (f : Formula) :
    writeAt sheet (calls + 1) depth f = throw tooDeep := by
  cases f <;> rw [writeAt, checkDepth_of_lt deep] <;> rfl

theorem renderAt_of_lt (deep : inlineLimit < depth) (cellText : Nat → CellId → BuildM String)
    (sheet : String) (f : Formula) : renderAt cellText sheet depth f = throw tooDeep := by
  have refused := checkDepth_of_lt deep
  cases f with
  | range target includeHeaders =>
      cases target with
      | cell c => rw [renderAt, refused]; rfl
      | _ =>
          rw [renderAt, refused]
          · rfl
          · nofun
  | _ => rw [renderAt, refused]; rfl

/-- The fuel is not used up as long as it reaches to the depth at which formulas are refused. -/
theorem cellText_endsAs (acyclic : s.Acyclic) {fuel : Nat} (enough : inlineLimit ≤ fuel + depth)
    (c : CellId) :
    EndsAs s (Shows s (room depth) [c]) (fun calls => writeCell sheet calls depth c)
      (cellText sheet fuel depth c) := by
  induction fuel generalizing depth c with
  | zero =>
      have deep : inlineLimit < depth + 1 := by omega
      refine writeCell_endsAs (fun f => .next ?_) c
      simp only [writeAt_of_lt deep]
      exact .throw _
  | succ fuel ih =>
      refine writeCell_endsAs (fun f => ?_) c
      rcases Nat.lt_or_ge depth inlineLimit with left | full
      · have cells : ∀ d, depth + 1 ≤ d → ∀ c, EndsAs s (Shows s (room d) [c])
            (fun calls => writeCell sheet calls d c) (cellText sheet fuel d c) :=
          fun d below => ih (by omega)
        have less : room (depth + 1) = inlineLimit - depth := by
          unfold room
          omega
        rw [← less]
        exact writeAt_endsAs acyclic cells f
      · have deep : inlineLimit < depth + 1 := by omega
        refine .next ?_
        simp only [writeAt_of_lt deep, renderAt_of_lt deep]
        exact .throw _

theorem writeFormula_endsAs (acyclic : s.Acyclic) (sheet : String) (f : Formula) :
    EndsAs s (Shows s (inlineLimit + 1) (s.mentions f)) (fun calls => writeFormula sheet calls f)
      (formulaText sheet f) := by
  have cells : ∀ d, 0 ≤ d → ∀ c, EndsAs s (Shows s (room d) [c])
      (fun calls => writeCell sheet calls d c) (cellText sheet (inlineLimit + 2) d c) :=
    fun d _ => cellText_endsAs acyclic (by omega)
  refine (writeAt_endsAs acyclic cells f).bind fun w text h => .pure ?_
  exact h.map fun text => String.ofList ('=' :: markFutureFunctions isKnownFunction
    (collapseSeparators (stripOuterParens text.toList)))

end TrialM

/-- Whatever cells and containers there are, as long as no stack lies below itself, the writing of a
formula comes to an end without any bound but the check of the depth: with enough calls allowed, every
trial has the same outcome, a text or a failure, and so has the writing with bounds.  A text holds the
content of the cells on all chains that start at a cell of the formula, and none of these is longer than
the limit and one more. -/
theorem BuildM.formulaText_ends (sheet : String) (f : Formula) (b : Build) (nests : b.store.Nests) :
    ∃ out b' enough,
      (∀ calls, enough ≤ calls → TrialM.writeFormula sheet calls f b = some (out, b')) ∧
      (formulaText sheet f b : Except SheetError String × Build) = (out.map Inlining.text, b') ∧
      ∀ w, out = .ok w →
        (∀ chain, chain ∈ w.chains ↔ b.store.Chain (b.store.mentions f) chain) ∧
          ∀ chain ∈ w.chains, chain.length ≤ inlineLimit + 1 := by
  obtain ⟨out, enough, same, ends⟩ := TrialM.writeFormula_endsAs nests.acyclic sheet f b rfl
  generalize (formulaText sheet f b : Except SheetError String × Build) = written at same ⊢
  cases same with
  | @ok w text b' _ shows =>
      refine ⟨.ok w, b', enough, ends, by rw [← shows.text]; rfl, ?_⟩
      rintro _ ⟨⟩
      exact ⟨shows.chains, shows.short⟩
  | @error e b' _ => exact ⟨.error e, b', enough, ends, rfl, by nofun⟩

/-! ## A circle, and a chain as long as can be -/

namespace BuildM

variable {sheet text : String} {inlined : Formula → BuildM String} {b : Build} {c : CellId}

theorem warnInline_runs (what : String) (b : Build) : ∃ t, Runs (warnInline what) b () t := by
  apply exists_runs
  show ((if !b.inlineWarned then _ else _ : BuildM Unit) b).1.isOk = true
  cases b.inlineWarned <;> rfl

/-- The content of a cell that is on no sheet is written once that has been reported. -/
theorem placedText_loose (lenient : b.config.strictReferences = false) (loose : b.store.Loose c)
    (written : ∀ t, settled t = settled b → ∃ t', Runs (match (b.store.cell c).formula with
      | none => (pure (b.store.cell c).value.literal : BuildM String)
      | some f => do
        let inner ← inlined f
        return "(" ++ String.ofList (stripOuterParens inner.toList) ++ ")") t text t') :
    ∃ b', Runs (placedText sheet inlined c) b text b' := by
  obtain ⟨t, warned⟩ := warnInline_runs (b.store.describeCell c) b
  obtain ⟨b', run⟩ := written t ((warnInline_keeps _).of_runs warned)
  refine ⟨b', runs_bind.2 ⟨b, b, rfl, ?_⟩⟩
  dsimp only
  rw [loose.unplaced, loose.content]
  refine runs_bind.2 ⟨b, b, rfl, ?_⟩
  rw [lenient]
  exact runs_bind.2 ⟨(), t, warned, run⟩

end BuildM

/-- A row of cells each of which refers to the next, as many as may be put into each other, and a column
that holds its own sum.  None of them is on a sheet. -/
def Store.rowAndCircle : Store where
  cells := ⟨((List.range inlineLimit).map (fun i => { formula := some (.ref ⟨i + 1⟩) }) ++
    [{ value := .text "end" },
      { formula := some (.call "SUM" [.range (.vector ⟨0⟩) false]) }] : List CellNode).toArray⟩
  vectors := ⟨#[{ orientation := .vertical, children := [.cell ⟨inlineLimit + 1⟩] }]⟩

theorem rowAndCircle_nests : Store.rowAndCircle.Nests where
  inVector v child below := by
    obtain ⟨i⟩ := v
    have inside : i < 1 := inStore_of_child below
    obtain rfl : i = 0 := by omega
    rw [List.mem_singleton.1 below]
    rfl
  inFrame f child below := by
    have inside : f.index < 0 := inStore_of_child below
    omega
  inStack k child below := by
    have inside : k.index < 0 := inStore_of_child below
    omega

theorem rowAndCircle_cell {n : Nat} (h : n < inlineLimit) :
    Store.rowAndCircle.cell ⟨inlineLimit - (n + 1)⟩ =
      { formula := some (.ref ⟨inlineLimit - n⟩) } := by
  have inside : inlineLimit - (n + 1) < inlineLimit := by omega
  have next : inlineLimit - (n + 1) + 1 = inlineLimit - n := by omega
  simp [Store.rowAndCircle, Store.cell, Table.get, List.getElem?_append, inside, next]

theorem rowAndCircle_loose {n : Nat} (h : n ≤ inlineLimit) :
    Store.rowAndCircle.Loose ⟨inlineLimit - n⟩ := by
  cases n with
  | zero => exact ⟨rfl, rfl⟩
  | succ n =>
      have cell := rowAndCircle_cell h
      constructor
      · rw [cell]
      · rw [cell]
        rfl

/-- The row is as long a chain as there can be. -/
theorem rowAndCircle_chain {n : Nat} (h : n ≤ inlineLimit) :
    ∃ chain, Store.rowAndCircle.Chain [⟨inlineLimit - n⟩] chain ∧ chain.length = n + 1 := by
  induction n with
  | zero => exact ⟨_, .last (by simp) (rowAndCircle_loose h), rfl⟩
  | succ n ih =>
      obtain ⟨chain, rest, length⟩ := ih (by omega)
      refine ⟨_, .cons (f := .ref ⟨inlineLimit - n⟩) (by simp) (rowAndCircle_loose h)
        (by rw [rowAndCircle_cell h]) ?_, congrArg (· + 1) length⟩
      rw [mentions]
      exact rest

/-- A cell of the row shows the text at its end, in parentheses or not. -/
theorem rowAndCircle_text (n fuel depth : Nat) (within : n ≤ fuel) (shallow : depth + n ≤ inlineLimit)
    {b : Build} (kept : b.store = .rowAndCircle) (lenient : b.config.strictReferences = false) :
    ∃ text b', Runs (BuildM.cellText "S" fuel depth ⟨inlineLimit - n⟩) b text b' ∧
      stripOuterParens text.toList = "\"end\"".toList := by
  have loose : b.store.Loose ⟨inlineLimit - n⟩ := kept ▸ rowAndCircle_loose (by omega)
  induction n generalizing fuel depth b with
  | zero =>
      have written : ∀ inlined,
          ∃ b', Runs (BuildM.placedText "S" inlined ⟨inlineLimit⟩) b "\"end\"" b' := by
        refine fun inlined => BuildM.placedText_loose lenient loose fun t _ => ⟨t, ?_⟩
        rw [kept]
        exact runs_pure.2 ⟨rfl, rfl⟩
      have bare : stripOuterParens "\"end\"".toList = "\"end\"".toList := rfl
      cases fuel with
      | zero => exact ⟨_, (written _).imp fun _ run => ⟨run, bare⟩⟩
      | succ fuel => exact ⟨_, (written _).imp fun _ run => ⟨run, bare⟩⟩
  | succ n ih =>
      obtain ⟨fuel, rfl⟩ : ∃ less, fuel = less + 1 := ⟨fuel - 1, by omega⟩
      have written : ∃ b', Runs (BuildM.cellText "S" (fuel + 1) depth ⟨inlineLimit - (n + 1)⟩) b
          "(\"end\")" b' := by
        refine BuildM.placedText_loose lenient loose fun t same => ?_
        obtain ⟨store, config⟩ := Prod.mk.inj same
        rw [kept] at store
        obtain ⟨text, t', run, bare⟩ := ih fuel (depth + 1) (by omega) (by omega) store
          (by rw [config, lenient]) (store ▸ rowAndCircle_loose (by omega))
        have fits : ¬inlineLimit < depth + 1 := by omega
        rw [kept, rowAndCircle_cell (by omega)]
        refine ⟨t', runs_bind.2 ⟨text, t', ?_, runs_pure.2 ⟨?_, rfl⟩⟩⟩
        · rw [BuildM.renderAt, BuildM.checkDepth, if_neg fits]
          exact runs_bind.2 ⟨(), t, rfl, run⟩
        · rw [bare]
          rfl
      exact ⟨_, written.imp fun _ run => ⟨run, rfl⟩⟩

theorem rowAndCircle_written : ∃ b', Runs (BuildM.formulaText "S" (.ref ⟨0⟩)) { store := .rowAndCircle }
    "=\"end\"" b' := by
  obtain ⟨text, b', run, bare⟩ := rowAndCircle_text inlineLimit (inlineLimit + 2) 0
    (Nat.le_add_right _ 2) (Nat.zero_add _).le (b := { store := .rowAndCircle }) rfl rfl
  refine ⟨b', runs_bind.2 ⟨text, b', ?_, runs_pure.2 ⟨?_, rfl⟩⟩⟩
  · rw [BuildM.renderAt]
    exact runs_bind.2 ⟨(), _, rfl, run⟩
  · rw [bare]
    rfl

theorem BuildM.formulaText_ends_rowAndCircle : Store.rowAndCircle.Nests ∧
    (∃ e b' enough, (∀ calls, enough ≤ calls → TrialM.writeFormula "S" calls
        (.range (.vector ⟨0⟩) false) { store := .rowAndCircle } = some (.error e, b')) ∧
      e.message = tooDeep.message) ∧
    ∃ w b' enough, (∀ calls, enough ≤ calls → TrialM.writeFormula "S" calls (.ref ⟨0⟩)
        { store := .rowAndCircle } = some (.ok w, b')) ∧
      w.text = "=\"end\"" ∧ (∃ chain ∈ w.chains, chain.length = inlineLimit + 1) ∧
        ∀ chain ∈ w.chains, chain.length ≤ inlineLimit + 1 := by
  refine ⟨rowAndCircle_nests, ?_, ?_⟩
  · obtain ⟨out, b', enough, run, same, -⟩ := formulaText_ends "S" (.range (.vector ⟨0⟩) false)
      { store := .rowAndCircle } rowAndCircle_nests
    have fails : (formulaText "S" (.range (.vector ⟨0⟩) false) { store := .rowAndCircle } :
        Except SheetError String × Build).1.mapError SheetError.message =
          .error tooDeep.message := by decide +kernel
    rw [same] at fails
    cases out with
    | ok w => cases fails
    | error e => exact ⟨e, b', enough, run, Except.error.inj fails⟩
  · obtain ⟨out, b', enough, run, same, chains⟩ := formulaText_ends "S" (.ref ⟨0⟩)
      { store := .rowAndCircle } rowAndCircle_nests
    obtain ⟨t, written⟩ := rowAndCircle_written
    have met := same.symm.trans written
    cases out with
    | error e => cases met
    | ok w =>
        obtain ⟨exactly, short⟩ := chains w rfl
        obtain ⟨chain, hchain, length⟩ := rowAndCircle_chain (Nat.le_refl inlineLimit)
        rw [Nat.sub_self] at hchain
        exact ⟨w, b', enough, run, Except.ok.inj (congrArg Prod.fst met), ⟨chain, (exactly chain).2 (by
          rw [mentions]
          exact hchain), length⟩, short⟩

end Spreadsheet
