import Spreadsheet.Proofs.Formula.Rendering
import Spreadsheet.Proofs.Store.Evolution

/-!
# Writing formulas without bounds

Formulas refer to cells that hold formulas, and nothing keeps such cells from referring to each other
in a circle.  Here formulas are written with no bound but the check of the depth: each step calls on
the others as often as it has to.  A trial allows a number of calls inside each other, and is unfinished
where more are needed.  What goes on for ever is unfinished in every trial; what ends has the same
outcome in all trials from some number on.  The cells whose content is put into a text are recorded on
the way.

The walks over blocks have no bound either.  They end where no container lies below itself.  A vector
holds no containers and a frame none but vectors, so that is where no stack does.
-/

namespace Spreadsheet

open Formula

namespace Store

variable {s : Store}

/-! ## Stacks that do not hold themselves -/

/-- Whether containers hold containers only of the kinds that they may hold, and no stack lies below
itself. -/
structure Nests (s : Store) : Prop where
  inVector : ∀ v, ∀ child ∈ s.children (.vector v), child.isContainer = false
  inFrame : ∀ f, ∀ child ∈ s.children (.frame f), child.isContainer = true → ∃ v, child = .vector v
  inStack : ∀ k, ∀ child ∈ s.children (.stack k), ¬Reach s child (.stack k)

theorem Nests.acyclic (h : s.Nests) : s.Acyclic := by
  intro parent child below reach
  have container := isContainer_of_reach reach (isContainer_of_child below)
  cases parent with
  | vector v =>
      rw [h.inVector v child below] at container
      cases container
  | frame f =>
      obtain ⟨v, rfl⟩ := h.inFrame f child below container
      exact not_reach_of_flat (h.inVector v) rfl (by nofun) reach
  | stack k => exact h.inStack k child below reach
  | _ => cases below

/-! ## Walks -/

/-- Every cell under an element, in the order in which cells are placed; nothing if the walk takes more
calls inside each other than are allowed. -/
def leavesIn (s : Store) : Nat → Element → Option (List CellId)
  | 0, _ => none
  | calls + 1, e => do
    let below ← (s.children e).mapM (s.leavesIn calls)
    return (asCell? e).toList ++ below.flatten

/-- The cells that a block covers, header cells only when they are asked for. -/
def blockIn (s : Store) (calls : Nat) (target : Element) (includeHeaders : Bool) :
    Option (List CellId) :=
  (s.leavesIn calls target).map (·.filter fun c => includeHeaders || !(s.cell c).isHeader)

/-- The corners of a block.  Only for those of a stack the block is walked over. -/
def cornersIn (s : Store) (calls : Nat) (target : Element) (includeHeaders : Bool) :
    Option (Option (Location × Location)) :=
  match target with
  | .stack _ => (s.blockIn calls target includeHeaders).map fun cells => do
    return (← (s.cell (← cells.head?)).location, ← (s.cell (← cells.getLast?)).location)
  | _ => some (s.blockRange? target includeHeaders)

theorem IsRank.leavesIn_eq {rank : Element → Nat} (h : s.IsRank rank) (acyclic : s.Acyclic)
    {calls : Nat} {e : Element} (enough : rank e ≤ calls) :
    s.leavesIn calls e = some (s.leaves e) := by
  induction calls generalizing e with
  | zero =>
      have := h.positive e
      omega
  | succ calls ih =>
      have below : (s.children e).mapM (s.leavesIn calls) =
          some ((s.children e).map s.leaves) := by
        rw [mapM_congr fun child below => ih (h.child_le below enough)]
        exact List.mapM_pure
      rw [leavesIn, below, acyclic.leaves_eq e]
      rfl

theorem Acyclic.leavesIn_eq (h : s.Acyclic) {calls : Nat} (enough : s.depthBound ≤ calls)
    (e : Element) : s.leavesIn calls e = some (s.leaves e) := by
  obtain ⟨rank, isRank⟩ := h.exists_rank
  exact isRank.leavesIn_eq h ((isRank.bounded e).trans enough)

theorem Acyclic.blockIn_eq (h : s.Acyclic) {calls : Nat} (enough : s.depthBound ≤ calls)
    (target : Element) (includeHeaders : Bool) :
    s.blockIn calls target includeHeaders = some (s.blockCells target includeHeaders) := by
  rw [blockIn, h.leavesIn_eq enough]
  rfl

theorem Acyclic.cornersIn_eq (h : s.Acyclic) {calls : Nat} (enough : s.depthBound ≤ calls)
    (target : Element) (includeHeaders : Bool) :
    s.cornersIn calls target includeHeaders = some (s.blockRange? target includeHeaders) := by
  cases target with
  | stack k =>
      rw [cornersIn, h.blockIn_eq enough]
      rfl
  | _ => rfl

end Store

/-! ## The writer without bounds -/

/-- A text, with the chains of cells that were put into it: the content of each cell of a chain stands
in the content of the one before. -/
structure Inlining where
  text : String
  chains : List (List CellId) := []

/-- Texts put together, with what was put into any of them. -/
def Inlining.join (f : List String → String) (parts : List Inlining) : Inlining where
  text := f (parts.map (·.text))
  chains := parts.flatMap (·.chains)

/-- A trial of an operation of a build.  An unfinished one has no outcome. -/
abbrev TrialM := ExceptT SheetError (StateT Build Option)

namespace TrialM

/-- No more calls are allowed. -/
def unfinished {α : Type} : TrialM α :=
  ExceptT.mk fun _ => none

/-- An operation of a build is always finished. -/
def ofBuild {α : Type} (m : BuildM α) : TrialM α :=
  ExceptT.mk fun b => some (m b)

/-- A walk changes nothing, and is finished or not. -/
def ofWalk {α : Type} (walk : Option α) : TrialM α :=
  ExceptT.mk fun b => walk.map fun a => (.ok a, b)

mutual

/-- Write a formula that stands `depth` unplaced cells deep. -/
def writeAt (sheet : String) : Nat → Nat → Formula → TrialM Inlining
  | 0, _, _ => unfinished
  | calls + 1, depth, f => do
    ofBuild (BuildM.checkDepth depth)
    match f with
    | .literal value => return { text := value.literal }
    | .ref c => writeCell sheet calls depth c
    | .range target includeHeaders => writeRange sheet calls depth target includeHeaders
    | .span first last =>
      let s := (← get).store
      match (s.cell first).location, (s.cell last).location with
      | some a, some b => return { text := spanText sheet a b }
      | _, _ => writeUnplaced sheet calls depth [first, last] "a cell span"
    | .unary op operand =>
      let inner ← writeAt sheet calls depth operand
      return { inner with text := unaryText op inner.text }
    | .binary op lhs rhs =>
      let left ← writeAt sheet calls depth lhs
      let right ← writeAt sheet calls depth rhs
      let spacing := (← get).config.operatorSpacing
      return { text := binaryText spacing op left.text right.text
               chains := left.chains ++ right.chains }
    | .call name args =>
      let parts ← args.mapM (writeAt sheet calls depth)
      return .join (fun texts => name ++ "(" ++ ", ".intercalate texts ++ ")") parts
    | .list items =>
      let parts ← items.mapM (writeAt sheet calls depth)
      return .join ", ".intercalate parts

/-- Write a reference to a cell that is `depth` unplaced cells deep: its location, or its content in
its place. -/
def writeCell (sheet : String) : Nat → Nat → CellId → TrialM Inlining
  | 0, _, _ => unfinished
  | calls + 1, depth, c => do
    let s := (← get).store
    let n := s.cell c
    match n.location with
    | some location => return { text := location.qualified sheet }
    | none =>
      if n.value.isEmpty && n.formula.isNone then
        return { text := ← ofBuild (BuildM.missingText (s.describeCell c)) }
      else
        if (← get).config.strictReferences then throw (.missingReference (s.describeCell c))
        ofBuild (BuildM.warnInline (s.describeCell c))
        match n.formula with
        | none => return { text := n.value.literal, chains := [[c]] }
        | some formula =>
          let inner ← writeAt sheet calls (depth + 1) formula
          return { text := "(" ++ String.ofList (stripOuterParens inner.text.toList) ++ ")"
                   chains := [c] :: inner.chains.map (c :: ·) }

/-- Write the block that an element covers. -/
def writeRange (sheet : String) : Nat → Nat → Element → Bool → TrialM Inlining
  | 0, _, _, _ => unfinished
  | calls + 1, depth, target, includeHeaders => do
    let s := (← get).store
    match target with
    | .cell c => writeCell sheet calls depth c
    | .gap _ => throw .arithmeticOnGap
    | .expression _ | .call _ => throw (s.pendingError target)
    | _ =>
      match ← ofWalk (s.cornersIn calls target includeHeaders) with
      | some (first, last) => return { text := spanText sheet first last }
      | none =>
        let cells ← ofWalk (s.blockIn calls target includeHeaders)
        writeUnplaced sheet calls depth cells ("a " ++ (s.kind target).name)

/-- Write the content of cells in place of their block. -/
def writeUnplaced (sheet : String) : Nat → Nat → List CellId → String → TrialM Inlining
  | 0, _, _, _ => unfinished
  | calls + 1, depth, cells, what => do
    if (← get).config.strictReferences then throw (.missingReference what)
    if cells.isEmpty then return { text := ← ofBuild (BuildM.missingText what) }
    else
      ofBuild (BuildM.warnInline what)
      let parts ← cells.mapM (writeCell sheet calls (depth + 1))
      return .join ", ".intercalate parts

end

/-- The finished text of a formula for a cell on a sheet. -/
def writeFormula (sheet : String) (calls : Nat) (f : Formula) : TrialM Inlining := do
  let inner ← writeAt sheet calls 0 f
  let body := collapseSeparators (stripOuterParens inner.text.toList)
  return { inner with
    text := String.ofList ('=' :: markFutureFunctions isKnownFunction body) }

end TrialM

/-! ## Ending alike -/

variable {s : Store} {α β γ δ : Type}

/-- Whether a trial and an operation of a build have the same outcome: both fail for the same reason, or
both succeed with answers that fit each other, and both leave the same build behind. -/
inductive SameOutcome (s : Store) (fits : γ → α → Prop) :
    Except SheetError γ × Build → Except SheetError α × Build → Prop
  | ok {w : γ} {a : α} {b : Build} (kept : b.store = s) (h : fits w a) :
      SameOutcome s fits (.ok w, b) (.ok a, b)
  | error (e : SheetError) {b : Build} (kept : b.store = s) :
      SameOutcome s fits (.error e, b) (.error e, b)

/-- Whether the trials of an operation end as another operation does, from some number of calls on and
wherever the nodes are those of a store. -/
def EndsAs (s : Store) (fits : γ → α → Prop) (x : Nat → TrialM γ) (m : BuildM α) : Prop :=
  ∀ b : Build, b.store = s → ∃ out enough,
    SameOutcome s fits out (m b) ∧ ∀ calls, enough ≤ calls → x calls b = some out

namespace EndsAs

variable {fits : γ → α → Prop} {fits' : δ → β → Prop}

theorem next {x : Nat → TrialM γ} {m : BuildM α}
    (h : EndsAs s fits (fun calls => x (calls + 1)) m) : EndsAs s fits x m := by
  intro b kept
  obtain ⟨out, enough, same, ends⟩ := h b kept
  refine ⟨out, enough + 1, same, fun calls le => ?_⟩
  obtain ⟨less, rfl⟩ : ∃ less, calls = less + 1 := ⟨calls - 1, by omega⟩
  exact ends less (by omega)

theorem throw_bind (e : SheetError) (f : Nat → γ → TrialM δ) (g : α → BuildM β) :
    EndsAs s fits' (fun calls => throw e >>= f calls) (throw e >>= g) :=
  fun b kept => ⟨(.error e, b), 0, .error e kept, fun _ _ => rfl⟩

theorem pure {w : γ} {a : α} (h : fits w a) :
    EndsAs s fits (fun _ => pure w) (pure a : BuildM α) :=
  fun b kept => ⟨(.ok w, b), 0, .ok kept h, fun _ _ => rfl⟩

theorem throw (e : SheetError) : EndsAs s fits (fun _ => throw e) (throw e : BuildM α) :=
  fun b kept => ⟨(.error e, b), 0, .error e kept, fun _ _ => rfl⟩

theorem bind {x : Nat → TrialM γ} {m : BuildM α} {f : Nat → γ → TrialM δ} {g : α → BuildM β}
    (hx : EndsAs s fits x m)
    (hf : ∀ w a, fits w a → EndsAs s fits' (fun calls => f calls w) (g a)) :
    EndsAs s fits' (fun calls => x calls >>= f calls) (m >>= g) := by
  intro b kept
  have chain : ∀ calls, (x calls >>= f calls) b =
      (x calls b).bind fun out => ExceptT.bindCont (f calls) out.1 out.2 := fun _ => rfl
  obtain ⟨out, enough, same, ends⟩ := hx b kept
  rw [bind_apply]
  generalize (m b : Except SheetError α × Build) = out' at same
  cases same with
  | @ok w a t kept h =>
      obtain ⟨out, more, same, goesOn⟩ := hf w a h t kept
      refine ⟨out, max enough more, same, fun calls le => (chain calls).trans ?_⟩
      rw [ends calls (by omega)]
      exact goesOn calls (by omega)
  | @error e t kept =>
      refine ⟨(.error e, t), enough, .error e kept, fun calls le => (chain calls).trans ?_⟩
      rw [ends calls le]
      rfl

theorem get_bind {f : Nat → Build → TrialM δ} {g : Build → BuildM β}
    (h : ∀ b : Build, b.store = s → EndsAs s fits' (fun calls => f calls b) (g b)) :
    EndsAs s fits' (fun calls => get >>= f calls) (get >>= g) :=
  fun b kept => h b kept b kept

theorem ite {c : Prop} [Decidable c] {x y : Nat → TrialM γ} {m n : BuildM α}
    (h : EndsAs s fits x m) (h' : EndsAs s fits y n) :
    EndsAs s fits (fun calls => if c then x calls else y calls) (if c then m else n) := by
  by_cases hc : c
  · simpa only [if_pos hc] using h
  · simpa only [if_neg hc] using h'

theorem ofBuild {m : BuildM α} (keeps : Keeps BuildM.settled m) :
    EndsAs s Eq (fun _ => TrialM.ofBuild m) m := by
  intro b kept
  have same : (m b : Except SheetError α × Build).2.store = s :=
    (congrArg Prod.fst (keeps b)).trans kept
  refine ⟨m b, 0, ?_, fun _ _ => rfl⟩
  generalize (m b : Except SheetError α × Build) = out at same
  rcases out with ⟨e | a, t⟩
  · exact .error e same
  · exact .ok same rfl

/-- A walk that is finished from some number of calls on. -/
theorem walk_bind {walk : Nat → Option γ} {w : γ} {enough : Nat}
    (done : ∀ calls, enough ≤ calls → walk calls = some w) {f : Nat → γ → TrialM δ} {m : BuildM β}
    (h : EndsAs s fits' (fun calls => f calls w) m) :
    EndsAs s fits' (fun calls => TrialM.ofWalk (walk calls) >>= f calls) m := by
  intro b kept
  obtain ⟨out, more, same, ends⟩ := h b kept
  refine ⟨out, max enough more, same, fun calls le => ?_⟩
  dsimp only
  rw [done calls (by omega)]
  exact ends calls (by omega)

end EndsAs

end Spreadsheet
