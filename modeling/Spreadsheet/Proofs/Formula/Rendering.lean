import Spreadsheet.Formula.Writer
import Spreadsheet.Proofs.Monad

/-!
# The text of a formula

While a formula becomes text, warnings are reported, and nothing else changes.  The text is put
together from the texts of the parts of the formula.
-/

namespace Spreadsheet

namespace BuildM

/-- What no formula changes while it is written. -/
def settled (b : Build) : Store × Config :=
  (b.store, b.config)

/-! ## Reports -/

theorem note_keeps (n : Notice) : Keeps settled (note n) :=
  .modify fun _ => rfl

theorem warnInline_keeps (what : String) : Keeps settled (warnInline what) := by
  refine Keeps.get.bind fun b => .ite ?_ (.pure _)
  have marked : Keeps settled (modify fun b => { b with inlineWarned := true } : BuildM Unit) :=
    .modify fun _ => rfl
  exact marked.bind fun _ => note_keeps _

theorem warnMissing_keeps (what : String) : Keeps settled (warnMissing what) := by
  refine Keeps.get.bind fun b => .ite ?_ (.pure _)
  have marked : Keeps settled (modify fun b => { b with missingWarned := true } : BuildM Unit) :=
    .modify fun _ => rfl
  exact marked.bind fun _ => note_keeps _

theorem missingText_keeps (what : String) : Keeps settled (missingText what) := by
  refine Keeps.get.bind fun _ => .ite ((Keeps.throw _).bind fun _ => ?_) ?_
  · exact (warnMissing_keeps what).bind fun _ => .pure _
  · exact (warnMissing_keeps what).bind fun _ => .pure _

/-! ## References -/

section

variable {cellText : CellId → BuildM String} (cells : ∀ c, Keeps settled (cellText c))

include cells

theorem unplacedText_keeps (l : List CellId) (what : String) :
    Keeps settled (unplacedText cellText l what) := by
  have listed : Keeps settled (if l.isEmpty then missingText what else do
      warnInline what
      return ", ".intercalate (← l.mapM cellText)) :=
    .ite (missingText_keeps what)
      ((warnInline_keeps what).bind fun _ => (Keeps.mapM cells l).bind fun _ => .pure _)
  exact Keeps.get.bind fun _ => .ite ((Keeps.throw _).bind fun _ => listed) listed

omit cells in
theorem spanText_keeps (sheet : String) (range : Option (Location × Location)) {other : BuildM String}
    (h : Keeps settled other) : Keeps settled (match range with
      | some (first, last) => (pure (spanText sheet first last) : BuildM String)
      | none => other) := by
  split
  · exact .pure _
  · exact h

theorem rangeText_keeps (sheet : String) (target : Element) (includeHeaders : Bool) :
    Keeps settled (rangeText cellText sheet target includeHeaders) := by
  refine Keeps.get.bind fun b => ?_
  have block := spanText_keeps sheet (b.store.blockRange? target includeHeaders)
    (unplacedText_keeps cells (b.store.blockCells target includeHeaders)
      ("a " ++ (b.store.kind target).name))
  cases target with
  | gap g => exact .throw _
  | expression e => exact .throw _
  | call c => exact .throw _
  | _ => exact block

end

theorem checkDepth_keeps (depth : Nat) : Keeps settled (checkDepth depth) :=
  .ite (.throw _) (.pure _)

/-- What follows a check of the depth starts where the check did. -/
theorem runs_of_checked {α : Type} {m : BuildM α} {depth : Nat} {b b' : Build} {a : α}
    (h : Runs (do checkDepth depth; m) b a b') : Runs m b a b' := by
  obtain ⟨_, _, checked, h⟩ := runs_bind.1 h
  unfold checkDepth at checked
  split at checked
  · exact absurd checked not_runs_throw
  · obtain ⟨-, rfl⟩ := runs_pure.1 checked
    exact h

mutual

theorem renderAt_keeps {cellText : Nat → CellId → BuildM String}
    (cells : ∀ depth c, Keeps settled (cellText depth c)) (sheet : String) (depth : Nat) :
    ∀ f : Formula, Keeps settled (renderAt cellText sheet depth f)
  | .literal value => by
      rw [renderAt]
      exact (checkDepth_keeps depth).bind fun _ => .pure _
  | .ref c => by
      rw [renderAt]
      exact (checkDepth_keeps depth).bind fun _ => cells depth c
  | .range target includeHeaders => by
      cases target with
      | cell c =>
          rw [renderAt]
          exact (checkDepth_keeps depth).bind fun _ => cells depth c
      | _ =>
          rw [renderAt]
          · exact (checkDepth_keeps depth).bind fun _ =>
              rangeText_keeps (cells (depth + 1)) sheet _ includeHeaders
          · simp
  | .span first last => by
      rw [renderAt]
      refine (checkDepth_keeps depth).bind fun _ => Keeps.get.bind fun b => ?_
      dsimp only
      split
      · exact .pure _
      · exact unplacedText_keeps (cells (depth + 1)) _ _
  | .unary op operand => by
      rw [renderAt]
      exact (checkDepth_keeps depth).bind fun _ =>
        (renderAt_keeps cells sheet depth operand).bind fun _ => .pure _
  | .binary op lhs rhs => by
      rw [renderAt]
      exact (checkDepth_keeps depth).bind fun _ =>
        (renderAt_keeps cells sheet depth lhs).bind fun _ =>
          (renderAt_keeps cells sheet depth rhs).bind fun _ => Keeps.get.bind fun _ => .pure _
  | .call name args => by
      rw [renderAt]
      exact (checkDepth_keeps depth).bind fun _ =>
        (renderAll_keeps cells sheet depth args).bind fun _ => .pure _
  | .list items => by
      rw [renderAt]
      exact (checkDepth_keeps depth).bind fun _ =>
        (renderAll_keeps cells sheet depth items).bind fun _ => .pure _

theorem renderAll_keeps {cellText : Nat → CellId → BuildM String}
    (cells : ∀ depth c, Keeps settled (cellText depth c)) (sheet : String) (depth : Nat) :
    ∀ l : List Formula, Keeps settled (renderAll cellText sheet depth l)
  | [] => by
      rw [renderAll]
      exact .pure _
  | f :: rest => by
      rw [renderAll]
      exact (renderAt_keeps cells sheet depth f).bind fun _ =>
        (renderAll_keeps cells sheet depth rest).bind fun _ => .pure _

end

theorem inlineText_keeps {inlined : Formula → BuildM String} (formulas : ∀ f, Keeps settled (inlined f))
    (what : String) (n : CellNode) : Keeps settled (do
      warnInline what
      match n.formula with
      | none => return n.value.literal
      | some formula =>
        let inner ← inlined formula
        return "(" ++ String.ofList (Formula.stripOuterParens inner.toList) ++ ")") := by
  refine (warnInline_keeps _).bind fun _ => ?_
  split
  · exact .pure _
  · exact (formulas _).bind fun _ => .pure _

theorem placedText_keeps {inlined : Formula → BuildM String} (formulas : ∀ f, Keeps settled (inlined f))
    (sheet : String) (c : CellId) : Keeps settled (placedText sheet inlined c) := by
  refine Keeps.get.bind fun b => ?_
  have inline := inlineText_keeps formulas (b.store.describeCell c) (b.store.cell c)
  dsimp only
  split
  · exact .pure _
  · refine .ite (missingText_keeps _) (Keeps.get.bind fun _ => .ite ?_ inline)
    exact (Keeps.throw _).bind fun _ => inline

theorem cellText_keeps (sheet : String) (fuel depth : Nat) (c : CellId) :
    Keeps settled (cellText sheet fuel depth c) := by
  induction fuel generalizing depth c with
  | zero => exact placedText_keeps (fun _ => .throw _) sheet c
  | succ fuel ih =>
      exact placedText_keeps (fun f => renderAt_keeps (fun d c => ih d c) sheet (depth + 1) f)
        sheet c

theorem formulaText_keeps (sheet : String) (f : Formula) : Keeps settled (formulaText sheet f) :=
  (renderAt_keeps (cellText_keeps sheet _) sheet 0 f).bind fun _ => .pure _

end BuildM

/-! ## The text as a whole -/

namespace Formula

mutual

/-- Whether a text is put together from the texts of the parts of a formula, those of references to
single cells fitting the cells. -/
inductive Spelled (spacing : Bool) (fits : CellId → String → Prop) : Formula → String → Prop
  | literal (value : CellValue) : Spelled spacing fits (.literal value) value.literal
  | ref {c : CellId} {text : String} (h : fits c text) : Spelled spacing fits (.ref c) text
  | cell {c : CellId} {text : String} (includeHeaders : Bool) (h : fits c text) :
      Spelled spacing fits (.range (.cell c) includeHeaders) text
  | range {target : Element} (includeHeaders : Bool) (text : String)
      (h : ∀ c, target ≠ .cell c) : Spelled spacing fits (.range target includeHeaders) text
  | span (first last : CellId) (text : String) : Spelled spacing fits (.span first last) text
  | unary {operand : Formula} {text : String} (op : Template.UnaryOp)
      (h : Spelled spacing fits operand text) :
      Spelled spacing fits (.unary op operand) (unaryText op text)
  | binary {lhs rhs : Formula} {left right : String} (op : Template.BinaryOp)
      (hl : Spelled spacing fits lhs left) (hr : Spelled spacing fits rhs right) :
      Spelled spacing fits (.binary op lhs rhs) (binaryText spacing op left right)
  | call {args : List Formula} {texts : List String} (name : String)
      (h : SpelledAll spacing fits args texts) :
      Spelled spacing fits (.call name args) (name ++ "(" ++ ", ".intercalate texts ++ ")")
  | list {items : List Formula} {texts : List String} (h : SpelledAll spacing fits items texts) :
      Spelled spacing fits (.list items) (", ".intercalate texts)

/-- Whether texts are put together from the texts of the parts of formulas. -/
inductive SpelledAll (spacing : Bool) (fits : CellId → String → Prop) :
    List Formula → List String → Prop
  | nil : SpelledAll spacing fits [] []
  | cons {f : Formula} {l : List Formula} {text : String} {texts : List String}
      (h : Spelled spacing fits f text) (ht : SpelledAll spacing fits l texts) :
      SpelledAll spacing fits (f :: l) (text :: texts)

end

variable {spacing : Bool} {fits fits' : CellId → String → Prop}

mutual

theorem Spelled.imp (imp : ∀ c text, fits c text → fits' c text) {f : Formula} {text : String} :
    Spelled spacing fits f text → Spelled spacing fits' f text
  | .literal value => .literal value
  | .ref h => .ref (imp _ _ h)
  | .cell includeHeaders h => .cell includeHeaders (imp _ _ h)
  | .range includeHeaders text h => .range includeHeaders text h
  | .span first last text => .span first last text
  | .unary op h => .unary op (h.imp imp)
  | .binary op hl hr => .binary op (hl.imp imp) (hr.imp imp)
  | .call name h => .call name (h.imp imp)
  | .list h => .list (h.imp imp)

theorem SpelledAll.imp (imp : ∀ c text, fits c text → fits' c text) {l : List Formula}
    {texts : List String} : SpelledAll spacing fits l texts → SpelledAll spacing fits' l texts
  | .nil => .nil
  | .cons h ht => .cons (h.imp imp) (ht.imp imp)

end

end Formula

namespace BuildM

section

variable {cellText : Nat → CellId → BuildM String} {fits : CellId → String → Prop}
  {kept : Store × Config}

mutual

theorem renderAt_spelled (keeps : ∀ depth c, Keeps settled (cellText depth c))
    (cells : ∀ depth c b text b', settled b = kept → Runs (cellText depth c) b text b' →
      fits c text) (sheet : String) (depth : Nat) :
    ∀ (f : Formula) {b b' : Build} {text : String}, settled b = kept →
      Runs (renderAt cellText sheet depth f) b text b' →
        f.Spelled kept.2.operatorSpacing fits text
  | .literal value, b, b', text, same, h => by
      rw [renderAt] at h
      obtain ⟨rfl, -⟩ := runs_pure.1 (runs_of_checked h)
      exact .literal value
  | .ref c, b, b', text, same, h => by
      rw [renderAt] at h
      exact .ref (cells depth c b text b' same (runs_of_checked h))
  | .range target includeHeaders, b, b', text, same, h => by
      cases target with
      | cell c =>
          rw [renderAt] at h
          exact .cell includeHeaders (cells depth c b text b' same (runs_of_checked h))
      | _ => exact .range includeHeaders text (by simp)
  | .span first last, b, b', text, same, h => .span first last text
  | .unary op operand, b, b', text, same, h => by
      rw [renderAt] at h
      obtain ⟨x, m, first, h⟩ := runs_bind.1 (runs_of_checked h)
      obtain ⟨rfl, -⟩ := runs_pure.1 h
      exact .unary op (renderAt_spelled keeps cells sheet depth operand same first)
  | .binary op lhs rhs, b, b', text, same, h => by
      rw [renderAt] at h
      obtain ⟨x, m, first, h⟩ := runs_bind.1 (runs_of_checked h)
      obtain ⟨y, m', second, h⟩ := runs_bind.1 h
      obtain ⟨_, _, got, h⟩ := runs_bind.1 h
      obtain ⟨rfl, rfl⟩ := runs_get.1 got
      obtain ⟨rfl, -⟩ := runs_pure.1 h
      have same₁ := ((renderAt_keeps keeps sheet depth lhs).of_runs first).trans same
      have same₂ := ((renderAt_keeps keeps sheet depth rhs).of_runs second).trans same₁
      rw [show m'.config = kept.2 from congrArg Prod.snd same₂]
      exact .binary op (renderAt_spelled keeps cells sheet depth lhs same first)
        (renderAt_spelled keeps cells sheet depth rhs same₁ second)
  | .call name args, b, b', text, same, h => by
      rw [renderAt] at h
      obtain ⟨texts, m, all, h⟩ := runs_bind.1 (runs_of_checked h)
      obtain ⟨rfl, -⟩ := runs_pure.1 h
      exact .call name (renderAll_spelled keeps cells sheet depth args same all)
  | .list items, b, b', text, same, h => by
      rw [renderAt] at h
      obtain ⟨texts, m, all, h⟩ := runs_bind.1 (runs_of_checked h)
      obtain ⟨rfl, -⟩ := runs_pure.1 h
      exact .list (renderAll_spelled keeps cells sheet depth items same all)

theorem renderAll_spelled (keeps : ∀ depth c, Keeps settled (cellText depth c))
    (cells : ∀ depth c b text b', settled b = kept → Runs (cellText depth c) b text b' →
      fits c text) (sheet : String) (depth : Nat) :
    ∀ (l : List Formula) {b b' : Build} {texts : List String}, settled b = kept →
      Runs (renderAll cellText sheet depth l) b texts b' →
        Formula.SpelledAll kept.2.operatorSpacing fits l texts
  | [], b, b', texts, same, h => by
      rw [renderAll] at h
      obtain ⟨rfl, -⟩ := runs_pure.1 h
      exact .nil
  | f :: rest, b, b', texts, same, h => by
      rw [renderAll, runs_bind] at h
      obtain ⟨x, m, first, h⟩ := h
      obtain ⟨xs, m', others, h⟩ := runs_bind.1 h
      obtain ⟨rfl, -⟩ := runs_pure.1 h
      exact .cons (renderAt_spelled keeps cells sheet depth f same first)
        (renderAll_spelled keeps cells sheet depth rest
          (((renderAt_keeps keeps sheet depth f).of_runs first).trans same) others)

end

end

theorem eq_qualified_of_placedText {sheet : String} {inlined : Formula → BuildM String}
    {c : CellId} {b b' : Build} {text : String} {l : Location}
    (h : Runs (placedText sheet inlined c) b text b') (hl : (b.store.cell c).location = some l) :
    text = l.qualified sheet := by
  obtain ⟨_, _, got, h⟩ := runs_bind.1 h
  obtain ⟨rfl, rfl⟩ := runs_get.1 got
  dsimp only at h
  rw [hl] at h
  exact (runs_pure.1 h).1.symm

theorem eq_qualified_of_cellText {sheet : String} {fuel depth : Nat} {c : CellId} {b b' : Build}
    {text : String} {l : Location} (h : Runs (cellText sheet fuel depth c) b text b')
    (hl : (b.store.cell c).location = some l) : text = l.qualified sheet := by
  cases fuel with
  | zero => exact eq_qualified_of_placedText h hl
  | succ fuel => exact eq_qualified_of_placedText h hl

end BuildM

/-- Whether a text is that of a formula on a sheet, every reference in it to a placed cell written as
the location of the cell. -/
def Store.States (s : Store) (sheet : String) (f : Formula) (text : String) : Prop :=
  ∃ spacing body,
    f.Spelled spacing (fun c x => ∀ l, (s.cell c).location = some l → x = l.qualified sheet) body ∧
      text = String.ofList ('=' :: Formula.markFutureFunctions Formula.isKnownFunction
        (Formula.collapseSeparators (Formula.stripOuterParens body.toList)))

theorem Store.States.congr {s t : Store} {sheet : String} {f : Formula} {text : String}
    (h : s.States sheet f text) (same : ∀ c, (t.cell c).location = (s.cell c).location) :
    t.States sheet f text := by
  obtain ⟨spacing, body, spelled, finished⟩ := h
  refine ⟨spacing, body, spelled.imp fun c x fits l hl => fits l ?_, finished⟩
  rw [← same c]
  exact hl

theorem BuildM.formulaText_states {sheet : String} {f : Formula} {b b' : Build} {text : String}
    (h : Runs (formulaText sheet f) b text b') : b.store.States sheet f text := by
  obtain ⟨body, m, rendered, h⟩ := runs_bind.1 h
  obtain ⟨rfl, -⟩ := runs_pure.1 h
  refine ⟨_, body, renderAt_spelled (cellText_keeps sheet _) ?_ sheet 0 f rfl rendered, rfl⟩
  intro depth c m text m' same run l hl
  refine eq_qualified_of_cellText run ?_
  rw [show m.store = b.store from congrArg Prod.fst same]
  exact hl

end Spreadsheet
