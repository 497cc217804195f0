import Spreadsheet.Proofs.Formula.Rendering

/-!
# What strict references refuse

A reference to a cell that is on no sheet is written as the content of the cell, or as an error value,
and the first such substitution of each kind is reported.  With strict references it is a failure.
Until a substitution is made the two ways of writing go side by side, and once one is reported it
stays so; so a formula that is written strictly is one that is written with nothing put in place of a
reference.
-/

namespace Spreadsheet

namespace Build

/-- Whether something was put in place of a reference and reported. -/
def substituted (b : Build) : Bool :=
  b.inlineWarned || b.missingWarned

/-- A build that is strict about references, or not, and the same otherwise. -/
def strictly (b : Build) (strict : Bool) : Build :=
  { b with config := { b.config with strictReferences := strict } }

/-- A build before anything of the kind was reported. -/
def unwarned (b : Build) : Build :=
  { b with inlineWarned := false, missingWarned := false }

@[simp] theorem substituted_strictly (b : Build) (strict : Bool) :
    (b.strictly strict).substituted = b.substituted := rfl

@[simp] theorem substituted_unwarned (b : Build) : b.unwarned.substituted = false := rfl

theorem substituted_eq_false {b : Build} :
    b.substituted = false ↔ b.inlineWarned = false ∧ b.missingWarned = false :=
  Bool.or_eq_false_iff

end Build

namespace BuildM

variable {α β : Type}

/-- Whether an operation, where references are not strict, puts something in place of one. -/
def Swaps (m : BuildM α) : Prop :=
  ∀ b : Build, b.config.strictReferences = false → (m b).2.substituted = true

/-- Whether an operation forgets no substitution, and, before the first one, either does the same with
strict references as without and changes nothing, or makes one and fails where it is refused. -/
structure Faithful (m : BuildM α) : Prop where
  latched : Upholds (fun b => b.substituted = true) m
  alike : ∀ b : Build, b.substituted = false →
    (∃ r, ∀ strict, (m (b.strictly strict) : Except SheetError α × Build) = (r, b.strictly strict)) ∨
      ((m (b.strictly false)).2.substituted = true ∧ ∃ e, (m (b.strictly true)).1 = .error e)

/-! ## How operations are put together -/

theorem Faithful.pure (a : α) : Faithful (pure a : BuildM α) :=
  ⟨.pure a, fun _ _ => .inl ⟨.ok a, fun _ => rfl⟩⟩

theorem Faithful.throw (e : SheetError) : Faithful (throw e : BuildM α) :=
  ⟨fun _ h => h, fun _ _ => .inl ⟨.error e, fun _ => rfl⟩⟩

theorem Faithful.bind {m : BuildM α} {f : α → BuildM β} (hm : Faithful m)
    (hf : ∀ a, Faithful (f a)) : Faithful (m >>= f) := by
  refine ⟨hm.latched.bind fun a => (hf a).latched, fun b hb => ?_⟩
  simp only [bind_apply]
  rcases hm.alike b hb with ⟨r, same⟩ | ⟨substituted, e, fails⟩
  · cases r with
    | error e =>
        left
        refine ⟨.error e, fun strict => ?_⟩
        rw [same strict]
    | ok a =>
        simp only [same]
        exact (hf a).alike b hb
  · right
    constructor
    · -- The rest forgets nothing.
      generalize (m (b.strictly false) : Except SheetError α × Build) = out at substituted ⊢
      rcases out with ⟨_ | a, t⟩
      · exact substituted
      · exact (hf a).latched t substituted
    · rw [show (m (b.strictly true) : Except SheetError α × Build) =
          (.error e, (m (b.strictly true)).2) from Prod.ext fails rfl]
      exact ⟨e, rfl⟩

/-- Reading what does not depend on how strict references are. -/
theorem Faithful.read {f : Build → BuildM β} (h : ∀ b, Faithful (f b))
    (same : ∀ b strict, f (b.strictly strict) = f b) : Faithful (get >>= f) := by
  refine ⟨fun b hb => (h b).latched b hb, fun b hb => ?_⟩
  have run : ∀ strict, ((get >>= f : BuildM β) (b.strictly strict) : Except SheetError β × Build) =
      f b (b.strictly strict) := by
    intro strict
    rw [← same b strict]
    rfl
  simp only [run]
  exact (h b).alike b hb

theorem Faithful.ite {c : Prop} [Decidable c] {m m' : BuildM α} (h : Faithful m)
    (h' : Faithful m') : Faithful (if c then m else m') := by
  split
  · exact h
  · exact h'

/-- An operation that strict references refuse. -/
def lenient (e : SheetError) (m : BuildM α) : BuildM α := do
  if (← get).config.strictReferences then throw e
  m

theorem lenient_apply (e : SheetError) (m : BuildM α) (b : Build) :
    (lenient e m b : Except SheetError α × Build) =
      if b.config.strictReferences then (.error e, b) else m b := by
  have read : (lenient e m b : Except SheetError α × Build) =
      (if b.config.strictReferences then (do throw e; m) else m : BuildM α) b := rfl
  rw [read]
  split <;> rfl

/-- What strict references refuse, where it makes a substitution otherwise. -/
theorem faithful_lenient {m : BuildM α} (e : SheetError)
    (latched : Upholds (fun b => b.substituted = true) m) (swaps : Swaps m) :
    Faithful (lenient e m) := by
  refine ⟨fun b hb => ?_, fun b _ => .inr ⟨?_, e, ?_⟩⟩
  · rw [lenient_apply]
    split
    · exact hb
    · exact latched b hb
  · rw [lenient_apply]
    exact swaps _ rfl
  · rw [lenient_apply]
    rfl

theorem faithful_mapM {γ : Type} {f : γ → BuildM α} (h : ∀ c, Faithful (f c)) (l : List γ) :
    Faithful (l.mapM f) := by
  induction l with
  | nil => exact .pure []
  | cons c l ih =>
      rw [List.mapM_cons]
      exact (h c).bind fun _ => ih.bind fun _ => .pure _

theorem Swaps.bind {m : BuildM α} {f : α → BuildM β} (hm : Swaps m)
    (hf : ∀ a, Upholds (fun b => b.substituted = true) (f a)) : Swaps (m >>= f) := by
  intro b lenient
  have first := hm b lenient
  rw [bind_apply]
  generalize (m b : Except SheetError α × Build) = out at first ⊢
  rcases out with ⟨_ | a, t⟩
  · exact first
  · exact hf a t first

/-! ## Reports -/

/-- A report that is made once is remembered, whether it is made now or was before. -/
private theorem substituted_of_once (marked : Build → Bool) {mark : Build → Build} (n : Notice)
    (before : ∀ b, marked b = true → b.substituted = true)
    (now : ∀ b, (mark b).substituted = true) (b : Build) :
    ((do if !marked (← get) then do modify mark; note n : BuildM Unit) b).2.substituted = true := by
  show ((if !marked b then (do modify mark; note n) else pure () : BuildM Unit) b).2.substituted =
    true
  split
  case isTrue => exact now b
  case isFalse reported => exact before b (by simpa using reported)

theorem warnInline_substituted (what : String) (b : Build) :
    (warnInline what b).2.substituted = true :=
  substituted_of_once Build.inlineWarned _ (fun _ h => by simp [Build.substituted, h])
    (fun _ => rfl) b

theorem warnMissing_substituted (what : String) (b : Build) :
    (warnMissing what b).2.substituted = true :=
  substituted_of_once Build.missingWarned _ (fun _ h => by simp [Build.substituted, h])
    (fun _ => by simp [Build.substituted]) b

theorem warnInline_latched (what : String) :
    Upholds (fun b => b.substituted = true) (warnInline what) :=
  fun b _ => warnInline_substituted what b

theorem substitutes_missing (what : String) :
    Swaps (warnMissing what >>= fun _ => pure referenceError) :=
  Swaps.bind (fun b _ => warnMissing_substituted what b) fun _ => .pure _

theorem missingText_faithful (what : String) : Faithful (missingText what) :=
  faithful_lenient _ (Upholds.bind (fun b _ => warnMissing_substituted what b) fun _ => .pure _)
    (substitutes_missing what)

theorem missingText_swaps (what : String) : Swaps (missingText what) := by
  intro b lenient
  show (BuildM.lenient _ _ b : Except SheetError String × Build).2.substituted = true
  rw [lenient_apply, lenient]
  exact substitutes_missing what b lenient

/-! ## References -/

section

variable {cellText : CellId → BuildM String} (cells : ∀ c, Faithful (cellText c))

include cells

theorem unplacedText_faithful (l : List CellId) (what : String) :
    Faithful (unplacedText cellText l what) := by
  have listed : Upholds (fun b => b.substituted = true)
      (do return ", ".intercalate (← l.mapM cellText) : BuildM String) :=
    (faithful_mapM cells l).latched.bind fun _ => .pure _
  refine faithful_lenient (.missingReference what) ?_ ?_
  · split
    · exact (missingText_faithful what).latched
    · exact (warnInline_latched what).bind fun _ => listed
  · split
    · exact missingText_swaps what
    · exact Swaps.bind (fun b _ => warnInline_substituted what b) fun _ => listed

theorem rangeText_faithful (sheet : String) (target : Element) (includeHeaders : Bool) :
    Faithful (rangeText cellText sheet target includeHeaders) := by
  refine .read (fun b => ?_) fun _ _ => rfl
  cases target with
  | gap g => exact .throw _
  | expression e => exact .throw _
  | call c => exact .throw _
  | _ =>
    dsimp only
    split
    · exact .pure _
    · exact unplacedText_faithful cells _ _

end

theorem checkDepth_faithful (depth : Nat) : Faithful (checkDepth depth) :=
  .ite (.throw _) (.pure _)

mutual

theorem renderAt_faithful {cellText : Nat → CellId → BuildM String}
    (cells : ∀ depth c, Faithful (cellText depth c)) (sheet : String) (depth : Nat) :
    ∀ f : Formula, Faithful (renderAt cellText sheet depth f)
  | .literal value => by
      rw [renderAt]
      exact (checkDepth_faithful depth).bind fun _ => .pure _
  | .ref c => by
      rw [renderAt]
      exact (checkDepth_faithful depth).bind fun _ => cells depth c
  | .range target includeHeaders => by
      cases target with
      | cell c =>
          rw [renderAt]
          exact (checkDepth_faithful depth).bind fun _ => cells depth c
      | _ =>
          rw [renderAt]
          · exact (checkDepth_faithful depth).bind fun _ =>
              rangeText_faithful (cells (depth + 1)) sheet _ includeHeaders
          · simp
  | .span first last => by
      rw [renderAt]
      refine (checkDepth_faithful depth).bind fun _ => .read (fun b => ?_) fun _ _ => rfl
      dsimp only
      split
      · exact .pure _
      · exact unplacedText_faithful (cells (depth + 1)) _ _
  | .unary op operand => by
      rw [renderAt]
      exact (checkDepth_faithful depth).bind fun _ =>
        (renderAt_faithful cells sheet depth operand).bind fun _ => .pure _
  | .binary op lhs rhs => by
      rw [renderAt]
      exact (checkDepth_faithful depth).bind fun _ =>
        (renderAt_faithful cells sheet depth lhs).bind fun _ =>
          (renderAt_faithful cells sheet depth rhs).bind fun _ =>
            .read (fun _ => .pure _) fun _ _ => rfl
  | .call name args => by
      rw [renderAt]
      exact (checkDepth_faithful depth).bind fun _ =>
        (renderAll_faithful cells sheet depth args).bind fun _ => .pure _
  | .list items => by
      rw [renderAt]
      exact (checkDepth_faithful depth).bind fun _ =>
        (renderAll_faithful cells sheet depth items).bind fun _ => .pure _

theorem renderAll_faithful {cellText : Nat → CellId → BuildM String}
    (cells : ∀ depth c, Faithful (cellText depth c)) (sheet : String) (depth : Nat) :
    ∀ l : List Formula, Faithful (renderAll cellText sheet depth l)
  | [] => by
      rw [renderAll]
      exact .pure _
  | f :: rest => by
      rw [renderAll]
      exact (renderAt_faithful cells sheet depth f).bind fun _ =>
        (renderAll_faithful cells sheet depth rest).bind fun _ => .pure _

end

/-- What is put into a formula only after that is reported, where strict references allow it. -/
theorem faithful_warnInline {m : BuildM α} (e : SheetError) (what : String)
    (content : Upholds (fun b => b.substituted = true) m) :
    Faithful (lenient e (warnInline what >>= fun _ => m)) :=
  faithful_lenient e ((warnInline_latched what).bind fun _ => content)
    (Swaps.bind (fun b _ => warnInline_substituted what b) fun _ => content)

theorem placedText_faithful {inlined : Formula → BuildM String}
    (formulas : ∀ f, Upholds (fun b => b.substituted = true) (inlined f)) (sheet : String)
    (c : CellId) : Faithful (placedText sheet inlined c) := by
  refine .read (fun b => ?_) fun _ _ => rfl
  dsimp only
  split
  · exact .pure _
  · split
    · exact missingText_faithful _
    · refine faithful_warnInline _ _ ?_
      split
      · exact .pure _
      · exact (formulas _).bind fun _ => .pure _

theorem cellText_faithful (sheet : String) (fuel depth : Nat) (c : CellId) :
    Faithful (cellText sheet fuel depth c) := by
  induction fuel generalizing depth c with
  | zero => exact placedText_faithful (fun _ => (Faithful.throw _).latched) sheet c
  | succ fuel ih =>
      exact placedText_faithful
        (fun f => (renderAt_faithful (fun d c => ih d c) sheet (depth + 1) f).latched) sheet c

theorem formulaText_faithful (sheet : String) (f : Formula) : Faithful (formulaText sheet f) :=
  (renderAt_faithful (cellText_faithful sheet _) sheet 0 f).bind fun _ => .pure _

/-- A formula can be written with strict references exactly if it can be written without them and
nothing is put in place of a reference on the way; and then the text is the same. -/
theorem runs_formulaText_strict_iff (sheet : String) (f : Formula) (b : Build) (text : String) :
    (∃ b', Runs (formulaText sheet f) (b.unwarned.strictly true) text b') ↔
      ∃ b', Runs (formulaText sheet f) (b.unwarned.strictly false) text b' ∧
        b'.inlineWarned = false ∧ b'.missingWarned = false := by
  simp only [← Build.substituted_eq_false]
  rcases (formulaText_faithful sheet f).alike b.unwarned rfl with
    ⟨r, same⟩ | ⟨substituted, e, fails⟩
  · -- Nothing is put in place of a reference, so both ways of writing end alike.
    simp only [Runs, same]
    constructor
    · rintro ⟨b', run⟩
      cases run
      exact ⟨_, rfl, rfl⟩
    · rintro ⟨b', run, -⟩
      cases run
      exact ⟨_, rfl⟩
  · constructor
    · rintro ⟨b', run⟩
      rw [show (formulaText sheet f (b.unwarned.strictly true) : Except SheetError String × Build) =
        (.ok text, b') from run] at fails
      cases fails
    · rintro ⟨b', run, none⟩
      rw [show (formulaText sheet f (b.unwarned.strictly false) : Except SheetError String × Build) =
        (.ok text, b') from run] at substituted
      exact absurd substituted (by simp [none])

end BuildM

end Spreadsheet
