import Spreadsheet.Proofs.Layout.Places
import Spreadsheet.Proofs.Resolve.Binding
import Spreadsheet.Proofs.Resolve.Declared

/-!
# Resolving places nothing, writes nothing and makes no table

What producers make is on no sheet yet, not written and no table, and whatever else is done in a pass
leaves the cells where they are and does not write them, whether or not it succeeds.  Trying a producer
changes no other part of a build either, but for its names and nodes.
-/

namespace Spreadsheet

open Store

theorem Store.traces_inheritStyles (d : Declared) (e : Element) (s : Store) :
    (s.inheritStyles d e).traces = s.traces := by
  cases e with
  | cell c => exact traces_updateCell s c (fun _ => rfl) fun _ => rfl
  | _ => exact traces_updateAttributes s _ _

/-! ## New elements -/

namespace StoreM

theorem copyCell_retains (c : CellId) : Retains traces (copyCell c) :=
  Retains.get.bind fun _ => newCell_retains rfl rfl

theorem copyVector_retains (v : VectorId) : Retains traces (copyVector v) :=
  Retains.get.bind fun _ => Retains.get.bind fun _ =>
    (Retains.mapM copyCell_retains _).bind fun _ => newVector_retains _

theorem copyFrame_retains (f : FrameId) : Retains traces (copyFrame f) :=
  Retains.get.bind fun _ => Retains.get.bind fun _ =>
    (Retains.mapM copyVector_retains _).bind fun _ => newFrame_retains rfl

theorem newFormulaCell_retains (f : Formula) : Retains traces (newFormulaCell f) := by
  cases f <;> exact newCell_retains rfl rfl

theorem vectorOf_retains (t : Series) : Retains traces (vectorOf t) :=
  (Retains.mapM newFormulaCell_retains _).bind fun _ => newVector_retains _

theorem elementOf_retains (g : Grid) : Retains traces (elementOf g) := by
  cases g with
  | scalar a => exact (newFormulaCell_retains a).bind fun _ => .pure _
  | series t => exact (vectorOf_retains t).bind fun _ => .pure _
  | table vectors o =>
      exact (Retains.mapM vectorOf_retains _).bind fun _ => (newFrame_retains rfl).bind fun _ => .pure _

theorem promote_retains (c : CellId) (o : Orientation) : Retains traces (promote c o) :=
  Retains.get.bind fun _ => newVector_retains _

end StoreM

/-! ## Keys -/

namespace Build

variable {τ : Type} {part : Build → τ} {container : Option Element}

/-- Whether at most the places of the cells, whether they are written, and which frames are tables
enter into a part of a build from its store. -/
def Quiet (part : Build → τ) : Prop :=
  ∀ b s, s.traces = b.store.traces → part { b with store := s } = part b

/-- Whether the names of a build do not enter into a part of it. -/
def Nameless (part : Build → τ) : Prop :=
  ∀ b symbols, part { b with symbols } = part b

/-- Whether a part of a build is none that resolving changes. -/
structure Lasting (part : Build → τ) : Prop where
  quiet : Quiet part
  nameless : Nameless part
  unswept : ∀ b unused, part { b with unused } = part b

theorem lasting_placing : Lasting placing where
  quiet b _ same := congrArg (Prod.mk b.config) (places_of_traces same)
  nameless _ _ := rfl
  unswept _ _ := rfl

theorem lasting_latches : Lasting fun b => b.store.latches where
  quiet _ _ same := latches_of_traces same
  nameless _ _ := rfl
  unswept _ _ := rfl

theorem lasting_tableOptions : Lasting fun b => b.store.tableOptions where
  quiet _ _ same := tableOptions_of_traces same
  nameless _ _ := rfl
  unswept _ _ := rfl

theorem Quiet.changeStore (quiet : Quiet part) {f : Store → Store}
    (h : ∀ s, (f s).traces = s.traces) : Keeps part (BuildM.changeStore f) :=
  .modify fun b => quiet b _ (h b.store)

theorem Quiet.liftStore (quiet : Quiet part) {α : Type} {m : StoreM α} (h : Retains traces m) :
    Keeps part (BuildM.liftStore m) :=
  fun b => quiet b _ (h b.store)

theorem Quiet.bindKeys (quiet : Quiet part) (e : ExpressionId) (b : Build) :
    part (b.bindKeys container e) = part b := by
  apply foldl_keeps
  intro b key
  rcases bindKey_cases container e b key with same | ⟨found, -, -, same⟩
  · rw [same]
  · rw [same]
    exact quiet b _ rfl

theorem Quiet.bindArguments (quiet : Quiet part) (args : List Argument) (b : Build) :
    part (args.foldl (bindArgument container) b) = part b := by
  apply foldl_keeps
  intro b arg
  cases arg with
  | expression e => exact quiet.bindKeys e b
  | _ => rfl

end Build

namespace BuildM

variable {τ : Type} {part : Build → τ}

theorem ofExcept_keeps {α : Type} (x : Except SheetError α) : Keeps part (ofExcept x) := by
  cases x with
  | ok a => exact .pure a
  | error e => exact .throw e

/-! ## Keys and new elements -/

section

variable (quiet : Build.Quiet part)

include quiet

theorem attemptExpression_quiet (container : Option Element) (e : ExpressionId) :
    Keeps part (attemptExpression container e) :=
  (Keeps.modify fun b => quiet.bindKeys e b).bind fun _ => Keeps.get.bind fun _ => .pure _

theorem attemptCall_quiet (container : Option Element) (c : CallId) :
    Keeps part (attemptCall container c) :=
  Keeps.get.bind fun _ => (Keeps.modify fun b => quiet.bindArguments _ b).bind fun _ =>
    Keeps.get.bind fun _ => .pure _

theorem elementFor_quiet (v : Value) (reference : Bool) :
    Keeps part (elementFor v reference) := by
  refine Keeps.get.bind fun b => ?_
  split
  · exact quiet.liftStore (StoreM.elementOf_retains _)
  · exact .throw _
  · exact (quiet.liftStore (StoreM.copyCell_retains _)).bind fun _ => .pure _
  · exact (quiet.liftStore (StoreM.copyVector_retains _)).bind fun _ => .pure _
  · exact (quiet.liftStore (StoreM.copyFrame_retains _)).bind fun _ => .pure _
  · exact (ofExcept_keeps _).bind fun _ => quiet.liftStore (StoreM.elementOf_retains _)

theorem promoted_quiet (c : CellId) (o : Orientation) : Keeps part (promoted c o) :=
  (quiet.liftStore (StoreM.promote_retains c _)).bind fun _ => .pure _

theorem turnVectors_quiet (o : Orientation) (vectors : List VectorId) :
    Keeps part (turnVectors o vectors) := by
  refine (quiet.changeStore fun s => ?_).bind fun _ => .pure _
  apply foldl_keeps
  intro t v
  rfl

theorem fit_quiet (container produced : Element) :
    Keeps part (fit container produced) := by
  refine Keeps.get.bind fun b => ?_
  split
  · exact .pure _
  · exact .pure _
  · exact Keeps.get.bind fun _ => .throw _
  · exact (promoted_quiet quiet _ _).bind fun _ => .pure _
  · exact turnVectors_quiet quiet _ _
  · exact turnVectors_quiet quiet _ _
  · exact Keeps.get.bind fun _ => .throw _
  · exact (promoted_quiet quiet _ _).bind fun _ => .pure _
  · exact .pure _

end

/-! ## Names -/

section

variable (nameless : Build.Nameless part)

include nameless

theorem registerId_quiet (key : String) (e : Element) : Keeps part (registerId key e) :=
  .ite (.modify fun b => nameless b _) (.throw _)

theorem registerHeader_quiet (key : String) (e : Element) :
    Keeps part (registerHeader key e) :=
  .ite (.modify fun b => nameless b _) (.pure _)

variable (quiet : Build.Quiet part)

include quiet

theorem setId_quiet (e : Element) (id : String) : Keeps part (setId e id) := by
  refine (registerId_quiet nameless id e).bind fun _ => quiet.changeStore fun s => ?_
  cases e with
  | cell c => exact traces_updateCell s c (fun _ => rfl) fun _ => rfl
  | frame f => exact traces_updateAttributes s (.frame f) _
  | _ => rfl

theorem setHeader_quiet (e : Element) (header : String) :
    Keeps part (setHeader e header) := by
  refine (registerHeader_quiet nameless header e).bind fun _ => quiet.changeStore fun s => ?_
  cases e with
  | cell c => exact traces_updateCell s c (fun _ => rfl) fun _ => rfl
  | _ => rfl

omit nameless quiet in
theorem takeName_quiet {bare : Store → Bool} {set register : String → BuildM Unit}
    (hset : ∀ name, Keeps part (set name)) (hregister : ∀ name, Keeps part (register name))
    (name : Option String) : Keeps part (takeName bare set register name) := by
  cases name with
  | none => exact .pure ()
  | some name => exact Keeps.get.bind fun _ => .ite (hset name) (hregister name)

theorem applyDeclared_quiet (d : Declared) (e : Element) : Keeps part (applyDeclared d e) := by
  rw [applyDeclared_eq]
  apply (takeName_quiet (setId_quiet nameless quiet e)
    (fun id => registerId_quiet nameless id e) d.id).bind
  intro _
  apply (takeName_quiet (setHeader_quiet nameless quiet e)
    (fun header => registerHeader_quiet nameless header e) d.header).bind
  intro _
  exact quiet.changeStore (traces_inheritStyles d e)

theorem produced_quiet (x : Except SheetError Value) (reference : Bool) (d : Declared) :
    Keeps part (do
      let element ← elementFor (← ofExcept x) reference
      applyDeclared d element
      return element) :=
  (ofExcept_keeps x).bind fun _ => (elementFor_quiet quiet _ reference).bind fun _ =>
    (applyDeclared_quiet nameless quiet d _).bind fun _ => .pure _

theorem produce?_quiet (container child : Element) :
    Keeps part (produce? container child) := by
  cases child with
  | expression e =>
      refine (attemptExpression_quiet quiet _ e).bind fun _ => .ite ?_ (.pure _)
      exact Keeps.bind (Keeps.get.bind fun _ => produced_quiet nameless quiet _ _ _) fun _ => .pure _
  | call c =>
      refine (attemptCall_quiet quiet _ c).bind fun _ => .ite ?_ (.pure _)
      exact Keeps.bind (Keeps.get.bind fun _ => produced_quiet nameless quiet _ _ _) fun _ => .pure _
  | _ => exact .pure _

end

/-! ## Passes -/

section

variable (lasting : Build.Lasting part)

include lasting

theorem passChildren_lasting {below : Element → BuildM Bool}
    (hbelow : ∀ e, Keeps part (below e)) (container : Element) (before list : List Element) :
    Keeps part (passChildren below container before list) := by
  induction list generalizing before with
  | nil => exact .pure true
  | cons child rest ih =>
      rw [passChildren]
      refine .ite ?_ (.ite ?_ (ih _))
      · exact (hbelow child).bind fun _ => (ih _).bind fun _ => .pure _
      · refine (produce?_quiet lasting.nameless lasting.quiet container child).bind fun r => ?_
        cases r with
        | none => exact (ih _).bind fun _ => .pure _
        | some produced =>
            refine (fit_quiet lasting.quiet container produced).bind fun _ => ?_
            refine (lasting.quiet.changeStore fun s => traces_setChildren s _ _).bind fun _ => ?_
            exact (Keeps.modify (f := Build.sweep) fun b => lasting.unswept b _).bind fun _ => ih _

theorem passWithin_lasting (fuel : Nat) (container : Element) :
    Keeps part (passWithin fuel container) := by
  induction fuel generalizing container with
  | zero => exact .pure true
  | succ fuel ih => exact Keeps.get.bind fun _ => passChildren_lasting lasting ih container _ _

theorem passAll_lasting (roots : List Element) : Keeps part (passAll roots) := by
  induction roots with
  | nil => exact .pure true
  | cons root rest ih =>
      refine Keeps.bind ?_ fun _ => ih.bind fun _ => .pure _
      exact Keeps.get.bind fun _ => passWithin_lasting lasting _ root

theorem resolveWithin_lasting (roots : List Element) (attempts : Nat) (last : Option Nat) :
    Keeps part (resolveWithin roots attempts last) := by
  induction attempts generalizing last with
  | zero => exact Keeps.get.bind fun _ => .throw _
  | succ attempts ih =>
      refine (passAll_lasting lasting roots).bind fun _ => .ite (.pure _)
        (Keeps.get.bind fun _ => ?_)
      exact .ite (Keeps.get.bind fun _ => (Keeps.throw _).bind fun _ => ih _) (ih _)

theorem resolve_lasting (roots : List Element) : Keeps part (resolve roots) :=
  Keeps.get.bind fun _ => resolveWithin_lasting lasting roots _ none

/-- Resolving changes nothing that lasts, whether or not it succeeds. -/
theorem resolveFrom_lasting (wb : Workbook) (roots : List Element) (sheets : List Sheet) :
    Keeps part (wb.resolveFrom roots sheets) := by
  induction sheets generalizing roots with
  | nil => exact resolve_lasting lasting roots
  | cons sheet rest ih =>
      rw [Workbook.resolveFrom]
      refine .ite ?_ (ih _)
      have cleared : Keeps part (modify fun b => b.clearScope sheet.element : BuildM Unit) :=
        .modify fun b => lasting.nameless b _
      refine Keeps.bind (.tryCatch (resolve_lasting lasting _) fun e => ?_) fun _ =>
        cleared.bind fun _ => ih _
      cases e with
      | unresolvedReference => exact .pure _
      | _ => exact .throw _

end

end BuildM

end Spreadsheet
