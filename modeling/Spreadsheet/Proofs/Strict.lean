import Spreadsheet.Proofs.Formula.Anchors
import Spreadsheet.Proofs.Resolve.Places
import Spreadsheet.Proofs.Sheets

/-!
# Strict references

With strict references a workbook is written only if all cells have places at whose places its
formulas look.  A cell gets its place on a sheet of the workbook, where it is also written, or has
had it before.  The cells between the ends of a block need no places.
-/

namespace Spreadsheet

open Store

/-! ## What writing leaves as it is -/

namespace Store

variable {s t : Store}

/-- What can be seen of a store while formulas are written. -/
def outline (s : Store) : Table VectorNode × Table FrameNode × Table StackNode ×
    (CellId → Option Location × Bool × Option Formula) :=
  (s.vectors, s.frames, s.groups, fun c =>
    ((s.cell c).location, (s.cell c).isHeader, (s.cell c).formula))

theorem outline_updateCell (s : Store) (c : CellId) {f : CellNode → CellNode}
    (location : ∀ n, (f n).location = n.location) (header : ∀ n, (f n).isHeader = n.isHeader)
    (formula : ∀ n, (f n).formula = n.formula) : (s.updateCell c f).outline = s.outline := by
  have cells : ∀ d, (((s.updateCell c f).cell d).location, ((s.updateCell c f).cell d).isHeader,
      ((s.updateCell c f).cell d).formula) =
        ((s.cell d).location, (s.cell d).isHeader, (s.cell d).formula) := by
    intro d
    rcases cell_updateCell_cases s c d f with h | h
    · rw [h]
    · rw [h, location, header, formula]
  unfold outline
  rw [funext cells]
  rfl

theorem tables_of_outline (h : t.outline = s.outline) :
    t.vectors = s.vectors ∧ t.frames = s.frames ∧ t.groups = s.groups :=
  ⟨congrArg (·.1) h, congrArg (·.2.1) h, congrArg (·.2.2.1) h⟩

theorem cell_of_outline (h : t.outline = s.outline) (c : CellId) :
    (t.cell c).location = (s.cell c).location ∧ (t.cell c).isHeader = (s.cell c).isHeader ∧
      (t.cell c).formula = (s.cell c).formula := by
  have same := congrFun (congrArg (·.2.2.2) h) c
  exact ⟨congrArg (·.1) same, congrArg (·.2.1) same, congrArg (·.2.2) same⟩

theorem subtree_of_outline (h : t.outline = s.outline) (e : Element) :
    t.subtree e = s.subtree e := by
  obtain ⟨vectors, frames, groups⟩ := tables_of_outline h
  have children : t.children = s.children := by
    funext x
    cases x <;> simp only [children, vector, frame, stack, vectors, frames, groups]
  have walk : ∀ fuel e, t.walk fuel e = s.walk fuel e := by
    intro fuel
    induction fuel with
    | zero => exact fun e => rfl
    | succ fuel ih =>
        intro e
        rw [walk, walk, children, funext ih]
  have depth : t.depthBound = s.depthBound := by
    simp only [depthBound, vectors, frames, groups]
  rw [subtree, subtree, walk, depth]

theorem leaves_congr (h : t.outline = s.outline) (e : Element) : t.leaves e = s.leaves e := by
  rw [leaves, leaves, subtree_of_outline h]

theorem blockEnds_congr (h : t.outline = s.outline) (includeHeaders : Bool) (target : Element) :
    t.blockEnds includeHeaders target = s.blockEnds includeHeaders target := by
  obtain ⟨vectors, frames, -⟩ := tables_of_outline h
  have header : ∀ c, (t.cell c).isHeader = (s.cell c).isHeader := fun c => (cell_of_outline h c).2.1
  have vector : t.vector = s.vector := by
    unfold Store.vector
    rw [vectors]
  have ends : t.vectorEnds includeHeaders = s.vectorEnds includeHeaders := by
    funext v
    unfold vectorEnds headerCell? vectorCells content
    rw [vector]
  cases target with
  | vector v => exact congrFun ends v
  | frame f => simp only [blockEnds, frameVectors, frame, frames, ends]
  | stack k => simp only [blockEnds, blockCells, leaves_congr h, header]
  | _ => rfl

mutual

theorem anchors_congr (h : t.outline = s.outline) : ∀ f : Formula, t.anchors f = s.anchors f
  | .literal _ => rfl
  | .ref _ => rfl
  | .range target includeHeaders => by
      rw [anchors, anchors]
      exact blockEnds_congr h includeHeaders target
  | .span _ _ => rfl
  | .unary _ operand => by
      rw [anchors, anchors]
      exact anchors_congr h operand
  | .binary _ lhs rhs => by
      rw [anchors, anchors, anchors_congr h lhs, anchors_congr h rhs]
  | .call _ args => by
      rw [anchors, anchors]
      exact allAnchors_congr h args
  | .list items => by
      rw [anchors, anchors]
      exact allAnchors_congr h items

theorem allAnchors_congr (h : t.outline = s.outline) :
    ∀ l : List Formula, t.allAnchors l = s.allAnchors l
  | [] => rfl
  | f :: rest => by
      rw [allAnchors, allAnchors, anchors_congr h f, allAnchors_congr h rest]

end

/-- Whether the formula of a cell can be written with strict references. -/
def Anchored (s : Store) (c : CellId) : Prop :=
  ∀ f, (s.cell c).formula = some f → s.Placed (s.anchors f)

theorem anchored_congr (h : t.outline = s.outline) {c : CellId} (anchored : t.Anchored c) :
    s.Anchored c := by
  intro f hf d hd
  rw [← (cell_of_outline h d).1]
  rw [← (cell_of_outline h c).2.2] at hf
  exact anchored f hf d (anchors_congr h f ▸ hd)

end Store

/-! ## Writing -/

/-- What no step of writing changes. -/
def Build.form (b : Build) : Config × Table VectorNode × Table FrameNode × Table StackNode ×
    (CellId → Option Location × Bool × Option Formula) :=
  (b.config, b.store.outline)

namespace BuildM

theorem changeStore_form {f : Store → Store} (h : ∀ s, (f s).outline = s.outline) :
    Keeps Build.form (changeStore f) :=
  .modify fun b => Prod.ext rfl (h b.store)

theorem markWritten_form (c : CellId) : Keeps Build.form (markWritten c) := by
  have marked : Keeps Build.form (changeStore fun s =>
      s.updateCell c fun n => { n with written := true }) :=
    changeStore_form fun s => outline_updateCell s c (fun _ => rfl) (fun _ => rfl) fun _ => rfl
  exact Keeps.get.bind fun _ => .ite ((Keeps.throw _).bind fun _ => marked) marked

theorem formulaText_form (sheet : String) (f : Formula) : Keeps Build.form (formulaText sheet f) :=
  (formulaText_keeps sheet f).comp fun (store, config) => (config, store.outline)

theorem finishFormula_form (sheet : String) (c : CellId) : Keeps Build.form (finishFormula sheet c) := by
  refine Keeps.get.bind fun b => ?_
  split
  case h_1 f _ =>
    refine (formulaText_form sheet f).bind fun text => changeStore_form fun s => ?_
    exact outline_updateCell s c (fun _ => rfl) (fun _ => rfl) fun _ => rfl
  case h_2 => exact .pure _

/-- The formula of a cell is written with strict references only if it can be. -/
theorem anchored_of_finishFormula {b b' : Build} {sheet : String} {c : CellId} {r : Unit}
    (strict : b.config.strictReferences = true) (h : Runs (finishFormula sheet c) b r b') :
    b.store.Anchored c := by
  obtain ⟨_, _, got, h⟩ := runs_bind.1 h
  obtain ⟨rfl, rfl⟩ := runs_get.1 got
  intro f hf
  rw [hf] at h
  obtain ⟨text, m, rendered, -⟩ := runs_bind.1 h
  exact placed_of_formulaText strict rendered

end BuildM

namespace WriteM

variable {handle : Nat} {sheet : String} {w w' : Writing}

theorem ofBuild_form {α : Type} {m : BuildM α} (h : Keeps Build.form m) :
    Keeps (fun w => w.build.form) (ofBuild m) :=
  fun w => h w.build

/-- The sink has nothing to do with it. -/
theorem blind_form {υ : Type} (look : Sink → υ) : Blind look fun w => w.build.form :=
  fun _ _ _ => rfl

theorem writeLeaf_form (handle : Nat) (sheet : String) (c : CellId) :
    Keeps (fun w => w.build.form) (writeLeaf handle sheet c) :=
  writeLeaf_keeps (blind_form (Sink.parts fun _ => ())) (fun _ _ => rfl)
    (fun c => ofBuild_form (BuildM.markWritten_form c))
    (fun c => ofBuild_form (BuildM.finishFormula_form sheet c)) c

theorem writeCells_form (root : Element) (handle : Nat) (sheet : String) :
    Keeps (fun w => w.build.form) (writeCells root handle sheet) :=
  writeCells_keeps (blind_form (Sink.parts fun _ => ())) (fun _ _ => rfl)
    (fun c => ofBuild_form (BuildM.markWritten_form c))
    (fun c => ofBuild_form (BuildM.finishFormula_form sheet c)) (fun _ _ _ _ => rfl) root

theorem anchored_of_writeLeaf (strict : w.build.config.strictReferences = true) {c : CellId}
    (placed : (w.build.store.cell c).location.isSome) {r : Option (Location × CellStyle)}
    (h : Runs (writeLeaf handle sheet c) w r w') : w.build.store.Anchored c := by
  obtain ⟨l, hl⟩ := Option.isSome_iff_exists.1 placed
  obtain ⟨_, _, got, h⟩ := runs_bind.1 h
  obtain ⟨rfl, rfl⟩ := runs_get.1 got
  dsimp only at h
  rw [hl] at h
  obtain ⟨_, _, mark, h⟩ := runs_bind.1 h
  obtain ⟨b₁, marked, rfl⟩ := runs_ofBuild.1 mark
  obtain ⟨_, _, finish, -⟩ := runs_bind.1 h
  obtain ⟨b₂, finished, rfl⟩ := runs_ofBuild.1 finish
  obtain ⟨config, outline⟩ := Prod.mk.inj ((BuildM.markWritten_form c).of_runs marked)
  exact anchored_congr outline (BuildM.anchored_of_finishFormula (config ▸ strict) finished)

theorem anchored_of_writeLeaves {cells : List CellId}
    (strict : w.build.config.strictReferences = true)
    (placed : ∀ c ∈ cells, (w.build.store.cell c).location.isSome)
    {out : List (Option (Location × CellStyle))}
    (h : Runs (cells.mapM (writeLeaf handle sheet)) w out w') :
    ∀ c ∈ cells, w.build.store.Anchored c := by
  induction cells generalizing w w' out with
  | nil => exact fun c hc => by cases hc
  | cons c rest ih =>
      rw [List.mapM_cons] at h
      obtain ⟨_, m, head, h⟩ := runs_bind.1 h
      obtain ⟨_, m', tail, -⟩ := runs_bind.1 h
      obtain ⟨config, outline⟩ := Prod.mk.inj ((writeLeaf_form handle sheet c).of_runs head)
      have later := ih (config ▸ strict) (fun d hd => by
        rw [(cell_of_outline outline d).1]
        exact placed d (List.mem_cons_of_mem _ hd)) tail
      intro d hd
      rcases List.mem_cons.1 hd with rfl | hd
      · exact anchored_of_writeLeaf strict (placed d (by simp)) head
      · exact anchored_congr outline (later d hd)

end WriteM

namespace Workbook

variable {wb : Workbook} {w w' : Writing} {r : Unit}

theorem writeSheet_form (wb : Workbook) (sheet : Sheet) (name : String) (handle : Nat) :
    Keeps (fun w => w.build.form) (wb.writeSheet sheet name handle) := by
  refine (WriteM.writeCells_form _ _ _).bind fun _ => Keeps.get.bind fun _ => ?_
  refine (WriteM.defineTables_keeps (WriteM.blind_form _) _ _ _).bind fun _ => ?_
  exact WriteM.ofBuild_form (.modify fun _ => rfl)

/-- The formulas of all sheets are written with strict references only if they can be. -/
theorem anchored_of_writeSheets {sheets : List ((Sheet × String) × Nat)}
    (strict : w.build.config.strictReferences = true)
    (placed : ∀ entry ∈ sheets, ∀ c ∈ w.build.store.leaves entry.1.1.element,
      (w.build.store.cell c).location.isSome)
    (h : Runs (sheets.forM fun entry => wb.writeSheet entry.1.1 entry.1.2 entry.2) w r w') :
    w'.build.store.outline = w.build.store.outline ∧
      ∀ entry ∈ sheets, ∀ c ∈ w.build.store.leaves entry.1.1.element, w.build.store.Anchored c := by
  induction sheets generalizing w with
  | nil =>
      obtain rfl := runs_forM_nil.1 h
      exact ⟨rfl, fun entry hentry => by cases hentry⟩
  | cons first rest ih =>
      obtain ⟨m, head, tail⟩ := runs_forM_cons.1 h
      obtain ⟨config, outline⟩ := Prod.mk.inj ((wb.writeSheet_form _ _ _).of_runs head)
      obtain ⟨same, later⟩ := ih (config ▸ strict) (fun entry hentry c hc => by
        rw [(cell_of_outline outline c).1]
        exact placed entry (List.mem_cons_of_mem _ hentry) c (leaves_congr outline _ ▸ hc)) tail
      refine ⟨same.trans outline, fun entry hentry c hc => ?_⟩
      rcases List.mem_cons.1 hentry with rfl | hentry
      · obtain ⟨_, _, cells, -⟩ := runs_bind.1 head
        obtain ⟨_, _, got, cells⟩ := runs_bind.1 cells
        obtain ⟨rfl, rfl⟩ := runs_get.1 got
        obtain ⟨_, _, leaves, -⟩ := runs_bind.1 cells
        exact WriteM.anchored_of_writeLeaves strict (placed entry (by simp)) leaves c hc
      · exact anchored_congr outline (later entry hentry c (leaves_congr outline _ ▸ hc))

/-- With strict references, a workbook is written only if every cell at whose place one of its
formulas looks is written with it, or had a place before. -/
theorem write_strict {path : String} {desktop : Option Desktop} (wf : w.build.store.WellFormed)
    (hsheets : ∀ sheet ∈ wb.sheets, w.build.store.InStore sheet.element)
    (fresh : w.sink.sheets = []) (strict : w.build.config.strictReferences = true)
    (h : Runs (wb.write path desktop) w () w') :
    ∀ sheet ∈ wb.sheets, ∀ c ∈ w'.build.store.leaves sheet.element, ∀ f,
      (w'.build.store.cell c).formula = some f → ∀ d ∈ w'.build.store.anchors f,
        (w.build.store.cell d).location.isSome ∨
          ∃ out ∈ w'.sink.sheets, ∃ entry ∈ out.writes, w'.build.store.Written out.name d entry := by
  obtain ⟨names, resolved, laid, handles, sink, inked, stages⟩ := wb.stages_of_write h
  obtain ⟨_, -, shown⟩ := wb.shown_of_write wf hsheets fresh h
  have evolves := BuildM.workbookResolve_evolves wf hsheets stages.resolves
  have held : ∀ entry ∈ wb.sheets.zip names, resolved.store.InStore entry.1.element :=
    fun entry hentry => evolves.held _ (hsheets _ (List.of_mem_zip hentry).1)
  obtain ⟨laidOut, -⟩ := layOutSheets_allLaidOut evolves.wf held stages.laysOut
  obtain ⟨config, still⟩ := Prod.mk.inj
    ((BuildM.resolveFrom_lasting Build.lasting_placing wb [] wb.sheets).of_runs stages.resolves)
  obtain ⟨config', moved⟩ := BuildM.layOutSheets_places evolves.wf held stages.laysOut
  obtain ⟨outline, anchored⟩ := anchored_of_writeSheets (w := { laid with sink })
    (show laid.build.config.strictReferences = true by rw [config', config, strict])
    (fun entry hentry => laidOut.located _ (List.of_mem_zip hentry).1) stages.writes
  have outline : w'.build.store.outline = laid.build.store.outline := by rw [stages.store, outline]
  intro sheet hsheet c hc f hf d hd
  rw [leaves_congr outline] at hc
  rw [(cell_of_outline outline c).2.2] at hf
  rw [anchors_congr outline] at hd
  -- Every sheet has a name and a handle, so it is among those that are written.
  obtain ⟨entry, hentry, rfl⟩ : ∃ entry ∈ (wb.sheets.zip names).zip handles, entry.1.1 = sheet := by
    have length : names.length = wb.sheets.length := length_namesFrom stages.named
    have length' : handles.length = (wb.sheets.zip names).length := by
      rw [(createSheets_log 0 stages.creates).1, List.length_range']
    rw [← List.map_fst_zip length.ge, ← List.map_fst_zip length'.ge, List.map_map] at hsheet
    exact List.mem_map.1 hsheet
  have placed := anchored entry hentry c hc f hf d hd
  rcases moved d with same | ⟨other, hother, reach⟩
  · left
    have before : laid.build.store.places d = w.build.store.places d := by rw [same, still]
    rw [show (w.build.store.cell d).location = (laid.build.store.cell d).location from before.symm]
    exact placed
  · right
    obtain ⟨out, hout, represents⟩ := forall₂_left shown.each (List.of_mem_zip hother).1
    have leaf : d ∈ w'.build.store.leaves other.1.element := by
      rw [leaves_congr outline]
      exact laidOut.grows.wf.acyclic.mem_leaves.2 reach
    obtain ⟨written, mem, fits⟩ := forall₂_left represents.cells leaf
    exact ⟨out, hout, written, List.mem_reverse.1 mem, fits⟩

end Workbook

/-! ## A book with strict references -/

/-- A writing with strict references, its build otherwise as it is. -/
def Writing.strictly (w : Writing) : Writing :=
  { w with build := { w.build with config := { w.build.config with strictReferences := true } } }

theorem strict_sample_runs : ∃ w',
    Runs (Workbook.sample.write defaultPath none) Writing.sample.strictly () w' :=
  exists_runs (by decide +kernel)

theorem Workbook.write_strict_sample : ∃ w',
    Runs (Workbook.sample.write defaultPath none) Writing.sample.strictly () w' ∧
      Writing.sample.strictly.build.config.strictReferences = true ∧
      ∀ sheet ∈ Workbook.sample.sheets, ∀ c ∈ w'.build.store.leaves sheet.element, ∀ f,
        (w'.build.store.cell c).formula = some f → ∀ d ∈ w'.build.store.anchors f,
          (Writing.sample.strictly.build.store.cell d).location.isSome ∨
            ∃ out ∈ w'.sink.sheets, ∃ entry ∈ out.writes,
              w'.build.store.Written out.name d entry := by
  obtain ⟨w', run⟩ := strict_sample_runs
  exact ⟨w', run, rfl, Workbook.write_strict sample_wellFormed (by decide) rfl rfl run⟩

/-! ## A cell between the ends of a block -/

/-- A column that is on no sheet, and one with its first and its last cell and their sum. -/
def Store.betweenEnds : Store where
  cells := ⟨#[{ value := .text "1" }, { value := .text "2" }, { value := .text "3" }]⟩
  vectors := ⟨#[{ orientation := .vertical, children := [.cell ⟨0⟩, .cell ⟨1⟩, .cell ⟨2⟩] },
    { orientation := .vertical, children := [.cell ⟨0⟩, .cell ⟨2⟩, .call ⟨0⟩] }]⟩
  groups := ⟨#[{ orientation := .vertical, children := [.vector ⟨1⟩] }]⟩
  calls := ⟨#[{ name := "SUM", args := [.element (.vector ⟨0⟩)] }]⟩

/-- The state in which the sum is written. -/
def Writing.betweenEnds : Writing where
  build :=
    { store := .betweenEnds
      config := { strictReferences := true }
      pins := [.vector ⟨0⟩, .stack ⟨0⟩] }
  sink := {}

/-- A book of one sheet. -/
def Workbook.single : Workbook where
  sheets := [{ root := ⟨0⟩, title := some "S" }]

/-- The state after the sum is written. -/
def Writing.betweenEndsWritten : Writing :=
  (Workbook.single.write defaultPath none .betweenEnds : Except SheetError Unit × Writing).2

/-- Whether a formula is the sum of a vector. -/
def Formula.sums (v : VectorId) : Formula → Bool
  | .call name [.range (.vector w) false] => name == "SUM" && w == v
  | _ => false

theorem Formula.eq_of_sums {v : VectorId} {f : Formula} (h : f.sums v = true) :
    f = .call "SUM" [.range (.vector v) false] := by
  unfold sums at h
  split at h
  case h_1 =>
    simp only [Bool.and_eq_true, beq_iff_eq] at h
    rw [h.1, h.2]
  case h_2 => cases h

/-- The sum is written, but not the second cell of the column of which it is the sum. -/
theorem Workbook.write_betweenEnds :
    Runs (Workbook.single.write defaultPath none) .betweenEnds () .betweenEndsWritten ∧
      ⟨3⟩ ∈ Writing.betweenEndsWritten.build.store.leaves (.stack ⟨0⟩) ∧
      (Writing.betweenEndsWritten.build.store.cell ⟨3⟩).formula =
        some (.call "SUM" [.range (.vector ⟨0⟩) false]) ∧
      ⟨1⟩ ∈ Writing.betweenEndsWritten.build.store.vectorCells ⟨0⟩ ∧
      ∀ name entry, ¬Writing.betweenEndsWritten.build.store.Written name ⟨1⟩ entry := by
  have nowhere : (Writing.betweenEndsWritten.build.store.cell ⟨1⟩).location = none := by
    decide +kernel
  have sum : (Writing.betweenEndsWritten.build.store.cell ⟨3⟩).formula.any (·.sums ⟨0⟩) = true := by
    decide +kernel
  refine ⟨runs_of_eq_ok (by decide +kernel), by decide +kernel, ?_, by decide +kernel, ?_⟩
  · generalize (Writing.betweenEndsWritten.build.store.cell ⟨3⟩).formula = formula at sum
    cases formula with
    | none => cases sum
    | some f => rw [Formula.eq_of_sums sum]
  intro name entry written
  obtain ⟨l, hl, -⟩ := written.block
  rw [nowhere] at hl
  cases hl

end Spreadsheet
