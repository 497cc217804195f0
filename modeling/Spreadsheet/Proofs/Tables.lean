import Spreadsheet.Proofs.Layout.AllTables
import Spreadsheet.Proofs.Layout.TableSpecs
import Spreadsheet.Proofs.Strict

/-!
# The tables of a written workbook

Every frame that is marked as a table and covers a block is defined as a table over that block, with
the headers of its vectors.  The headers differ, even when case is ignored, but for those of the
columns in the place of gaps, which are empty; and in a table of columns that are one cell wide each
header that is not empty is what is written to the first row of its column.
-/

namespace Spreadsheet

open Store

variable {s t : Store} {f : FrameId} {w w' : Writing} {wb : Workbook} {r : Unit}

/-! ## What writing leaves as it is -/

namespace Store

/-- The sizes of cells, and what header cells say. -/
def fronts (s : Store) (c : CellId) : Extent × Option CellValue :=
  ((s.cell c).merge, s.headerText? c)

theorem fronts_updateCell (s : Store) (c : CellId) {f : CellNode → CellNode}
    (merge : ∀ n, (f n).merge = n.merge)
    (text : (s.updateCell c f).headerText? = s.headerText?) :
    (s.updateCell c f).fronts = s.fronts := by
  funext d
  have size : ((s.updateCell c f).cell d).merge = (s.cell d).merge := by
    rcases cell_updateCell_cases s c d f with same | same
    · rw [same]
    · rw [same, merge]
  rw [fronts, size, text, fronts]

/-- The text of a formula takes the place of no header. -/
theorem headerText?_updateValue (s : Store) {c : CellId} {g : Formula}
    (formula : (s.cell c).formula = some g) (value : CellValue) :
    (s.updateCell c fun n => { n with value }).headerText? = s.headerText? := by
  funext d
  rcases cell_updateCell_cases s c d (fun n => { n with value }) with same | same
  · rw [headerText?, same, headerText?]
  · by_cases here : c = d
    · subst here
      simp [headerText?, same, formula]
    · rw [headerText?, cell_updateCell_of_ne s _ here, headerText?]

/-- Where only cells have changed, and neither their places nor their sizes nor what header cells say,
all tables are as they were. -/
theorem sameTable_of_outline (h : t.outline = s.outline) (fronts : t.fronts = s.fronts)
    (f : FrameId) : SameTable s t f := by
  obtain ⟨vectors, frames, -⟩ := tables_of_outline h
  have vector : ∀ v, t.vector v = s.vector v := fun v => by rw [vector, vectors, vector]
  have frame : t.frame f = s.frame f := by rw [frame, frames, frame]
  have front : ∀ c, (t.cell c).merge = (s.cell c).merge ∧ t.headerText? c = s.headerText? c :=
    fun c => Prod.mk.inj (congrFun fronts c)
  refine ⟨by rw [frame], by rw [frameVectors, frame, frameVectors], fun v _ => ?_, fun v _ => ?_,
    fun _ _ c _ => ⟨(cell_of_outline h c).1, front c⟩, fun single c hc => ?_⟩
  · rw [vector]
    exact ⟨rfl, rfl⟩
  · rw [children, vector, children]
  · rw [← (front c).1]
    exact single c (leaves_congr h _ ▸ hc)

theorem tableFrames_of_outline (h : t.outline = s.outline) (fronts : t.fronts = s.fronts)
    (root : Element) : t.tableFrames root = s.tableFrames root := by
  obtain ⟨-, frames, -⟩ := tables_of_outline h
  have pick : t.tableFrame? = s.tableFrame? := by
    funext e
    cases e with
    | frame f =>
        have same : t.frame f = s.frame f := by rw [frame, frames, frame]
        rw [tableFrame?, same, (sameTable_of_outline h fronts f).frameRange?_eq, tableFrame?]
    | _ => rfl
  rw [tableFrames, tableFrames, subtree_of_outline h, pick]

theorem Specified.congr {table : TableSpec} (specified : t.Specified f table)
    (h : SameTable s t f) : s.Specified f table := by
  obtain ⟨first, last, range, block, headers⟩ := specified
  refine ⟨first, last, (h.frameRange?_eq true).symm.trans range, block, headers.trans ?_⟩
  rw [h.vectors]
  exact List.map_congr_left fun v hv => by rw [(h.header v hv).1]

end Store

namespace BuildM

theorem markWritten_fronts (c : CellId) :
    Keeps (fun b => b.store.fronts) (markWritten c) := by
  have marked : Keeps (fun b => b.store.fronts) (changeStore fun s =>
      s.updateCell c fun n => { n with written := true }) :=
    .modify fun b => fronts_updateCell b.store c (fun _ => rfl)
      (headerText?_updateCell b.store c fun _ => rfl)
  exact Keeps.get.bind fun _ => .ite ((Keeps.throw _).bind fun _ => marked) marked

theorem finishFormula_fronts (sheet : String) (c : CellId) :
    Keeps (fun b => b.store.fronts) (finishFormula sheet c) := by
  refine Keeps.get_bind fun b => ?_
  cases found : (b.store.cell c).formula with
  | none => rfl
  | some formula =>
      have rendered : (formulaText sheet formula b : Except SheetError String × Build).2.store =
          b.store := congrArg Prod.fst (formulaText_keeps sheet formula b)
      dsimp only
      rw [bind_apply]
      generalize (formulaText sheet formula b : Except SheetError String × Build) = out
        at rendered ⊢
      rcases out with ⟨_ | text, m⟩
      · exact congrArg fronts rendered
      · have rendered : m.store = b.store := rendered
        show (m.store.updateCell c fun n => { n with value := .formula text }).fronts =
          b.store.fronts
        rw [rendered]
        exact fronts_updateCell b.store c (fun _ => rfl) (headerText?_updateValue b.store found _)

end BuildM

namespace WriteM

/-- What writing the cells of a sheet leaves as it is: the header cells, and the tables. -/
def front (w : Writing) : (CellId → Extent × Option CellValue) × List (List TableSpec) :=
  (w.build.store.fronts, w.sink.tables)

theorem writeCells_front (root : Element) (handle : Nat) (sheet : String) :
    Keeps front (writeCells root handle sheet) := by
  have blind : Blind (fun sink => sink.sheets.map (·.tables)) front :=
    fun _ _ same => Prod.ext rfl same
  have build : ∀ {m : BuildM Unit}, Keeps (fun b => b.store.fronts) m → Keeps front (ofBuild m) :=
    fun h w => Prod.ext (h w.build) rfl
  exact writeCells_keeps blind.parts (fun _ _ => rfl) (fun c => build (BuildM.markWritten_fronts c))
    (fun c => build (BuildM.finishFormula_fronts sheet c)) (fun _ _ _ _ => rfl) root

end WriteM

/-! ## The tables of all sheets -/

namespace Workbook

/-- Whether some tables are, in order, those of the frames under an element. -/
def Defined (s : Store) (root : Element) (tables : List TableSpec) : Prop :=
  List.Forall₂ s.Specified (s.tableFrames root) tables

theorem Defined.congr {root : Element} {tables : List TableSpec} (defined : Defined t root tables)
    (h : t.outline = s.outline) (fronts : t.fronts = s.fronts) : Defined s root tables := by
  have same : t.tableFrames root = s.tableFrames root := tableFrames_of_outline h fronts root
  rw [Defined, ← same]
  exact defined.imp fun f _ specified => specified.congr (sameTable_of_outline h fronts f)

theorem writeSheet_tables {sheet : Sheet} {name : String} {handle : Nat}
    (h : Runs (wb.writeSheet sheet name handle) w r w') :
    w'.build.store.outline = w.build.store.outline ∧
      w'.build.store.fronts = w.build.store.fronts ∧
      ∃ tables, Defined w.build.store sheet.element tables ∧
        w'.sink.tables = w.sink.tables.modify handle (· ++ tables) := by
  obtain ⟨count, m, cells, h⟩ := runs_bind.1 h
  obtain ⟨-, outline⟩ := Prod.mk.inj ((WriteM.writeCells_form _ _ _).of_runs cells)
  obtain ⟨fronts, unchanged⟩ := Prod.mk.inj ((WriteM.writeCells_front _ _ _).of_runs cells)
  obtain ⟨_, _, got, h⟩ := runs_bind.1 h
  obtain ⟨rfl, rfl⟩ := runs_get.1 got
  obtain ⟨defined, m', tabled, noted⟩ := runs_bind.1 h
  obtain ⟨b, note, rfl⟩ := WriteM.runs_ofBuild.1 noted
  obtain ⟨tables, each, added⟩ := WriteM.tables_of_defineTables tabled
  have store := Keeps.of_runs (WriteM.defineTables_keeps WriteM.blind_cellPart _ _ _) tabled
  have store : b.store = m.build.store :=
    (BuildM.store_of_note note).trans (Prod.mk.inj store).1
  refine ⟨?_, ?_, tables, Defined.congr each outline fronts, ?_⟩
  · rw [store, outline]
  · rw [store, fronts]
  · rw [← unchanged]
    exact added

theorem writeSheets_tables {sheets : List (Sheet × String)} (done : List (List TableSpec))
    (tables : w.sink.tables = done ++ sheets.map fun _ => [])
    (h : Runs ((sheets.zip (List.range' done.length sheets.length)).forM fun entry =>
      wb.writeSheet entry.1.1 entry.1.2 entry.2) w r w') :
    w'.build.store.outline = w.build.store.outline ∧
      w'.build.store.fronts = w.build.store.fronts ∧ ∃ outs, w'.sink.tables = done ++ outs ∧
        List.Forall₂ (fun entry => Defined w.build.store entry.1.element) sheets outs := by
  induction sheets generalizing w done with
  | nil =>
      obtain rfl := runs_forM_nil.1 h
      exact ⟨rfl, rfl, [], tables, .nil⟩
  | cons entry rest ih =>
      rw [List.length_cons, List.range'_succ, List.zip_cons_cons] at h
      obtain ⟨m, first, others⟩ := runs_forM_cons.1 h
      obtain ⟨outline, fronts, here, defined, added⟩ := writeSheet_tables first
      rw [tables, List.map_cons, modify_append_cons, List.nil_append] at added
      have length : (done ++ [here]).length = done.length + 1 := by simp
      rw [← length] at others
      obtain ⟨outline', fronts', outs, final, all⟩ := ih (done ++ [here])
        (by rw [added, List.append_assoc]; rfl) others
      refine ⟨outline'.trans outline, fronts'.trans fronts, here :: outs, ?_, .cons defined ?_⟩
      · rw [final, List.append_assoc]
        rfl
      · exact all.imp fun _ _ later => later.congr outline fronts

end Workbook

end Spreadsheet
