import Spreadsheet.Proofs.Layout.Shapes
import Spreadsheet.Proofs.Resolve.Places
import Spreadsheet.Proofs.Workbook

/-!
# Every cell is handed to a sink once

A cell is handed to a sink when it is written or merged.  Writing is run here together with a list of
the cells that are handed on, which changes nothing else.  No operation takes back that a cell is
written, and a cell is handed on only after it was marked as written.  So however often workbooks are
written that share cells, and wherever that fails, no cell is handed on twice.
-/

namespace Spreadsheet

open Store

/-! ## Cells stay written -/

namespace BuildM

theorem finishFormula_latches (sheet : String) (c : CellId) :
    Keeps (fun b => b.store.latches) (finishFormula sheet c) := by
  refine Keeps.get.bind fun b => ?_
  split
  case h_1 f _ =>
    refine ((formulaText_keeps sheet f).comp fun settled => settled.1.latches).bind fun text => ?_
    exact .modify fun b => latches_updateCell b.store c fun _ => rfl
  case h_2 => exact .pure _

/-- A cell is marked as written, unless it is already. -/
theorem markWritten_ensures (c : CellId) (b : Build) :
    Ensures (markWritten c) b
      (fun t => t = b ∨ t = { b with store := b.store.updateCell c ({ · with written := true }) })
      fun _ t => b.store.latches c = false ∧
        t = { b with store := b.store.updateCell c ({ · with written := true }) } := by
  refine Ensures.get_bind (Ensures.ite (fun _ => ?_) fun blank => ?_)
  · have failed : ∀ {e : SheetError} {I : Build → Prop}, I b →
        Ensures (throw e : BuildM PUnit) b I fun _ _ => False := fun hI => .throw hI
    exact (failed (.inl rfl)).bind fun _ _ _ impossible => impossible.elim
  · exact .modify (.inr rfl) ⟨Bool.eq_false_of_not_eq_true blank, rfl⟩

end BuildM

/-! ## How much is written -/

/-- How often something was written to cells of the sheets of a sink. -/
def Sink.writeCount (sink : Sink) : Nat :=
  (sink.log.map fun entry => entry.2.length).sum

namespace SinkM

theorem sum_map_modify_le {α : Type} {size : α → Nat} {f : α → α} {step : Nat}
    (h : ∀ a, size (f a) ≤ size a + step) (l : List α) (i : Nat) :
    ((l.modify i f).map size).sum ≤ (l.map size).sum + step := by
  induction l generalizing i with
  | nil => simp
  | cons a l ih =>
      cases i with
      | zero =>
          have := h a
          simp only [List.modify_zero_cons, List.map_cons, List.sum_cons]
          omega
      | succ i =>
          have := ih i
          simp only [List.modify_succ_cons, List.map_cons, List.sum_cons]
          omega

theorem writeCount_onSheet {handle : Nat} {f : WrittenSheet → WrittenSheet} {step : Nat}
    (h : ∀ s, (f s).writes.length ≤ s.writes.length + step) (sink : Sink) :
    (onSheet handle f sink : Except SheetError Unit × Sink).2.writeCount ≤
      sink.writeCount + step := by
  have count : ∀ sink : Sink,
      sink.writeCount = (sink.sheets.map fun s => s.writes.length).sum := fun sink => by
    rw [Sink.writeCount, Sink.log, List.map_map]
    rfl
  rw [count, count]
  show List.sum (List.map _ ((if handle < sink.sheets.length then
    set { sink with sheets := sink.sheets.modify handle f }
    else throw (unknownSheet sink.medium handle) : SinkM Unit) sink).2.sheets) ≤ _
  split
  · exact sum_map_modify_le h sink.sheets handle
  · exact Nat.le_add_right _ _

theorem writeCount_checkCell_bind {step : Nat} {m : SinkM Unit}
    (h : ∀ sink, (m sink : Except SheetError Unit × Sink).2.writeCount ≤ sink.writeCount + step)
    (cell : Cell) (sink : Sink) :
    ((checkCell cell >>= fun _ => m) sink : Except SheetError Unit × Sink).2.writeCount ≤
      sink.writeCount + step := by
  have same : (checkCell cell sink : Except SheetError Unit × Sink).2.writeCount =
      sink.writeCount := checkCell_keeps cell sink
  rw [bind_apply]
  generalize (checkCell cell sink : Except SheetError Unit × Sink) = out at same ⊢
  rcases out with ⟨_ | _, sink'⟩
  · exact same.le.trans (Nat.le_add_right _ _)
  · exact (h sink').trans (Nat.add_le_add_right same.le step)

theorem writeCount_writeCell (handle : Nat) (cell : Cell) (value : CellValue) (style : CellStyle)
    (sink : Sink) : (writeCell handle cell value style sink : Except SheetError Unit × Sink).2.writeCount
      ≤ sink.writeCount + 1 :=
  writeCount_checkCell_bind (writeCount_onSheet fun _ => Nat.le_refl _) cell sink

theorem writeCount_mergeCells (handle : Nat) (block : Block) (value : CellValue) (style : CellStyle)
    (sink : Sink) : (mergeCells handle block value style sink : Except SheetError Unit × Sink).2.writeCount
      ≤ sink.writeCount + 1 :=
  writeCount_checkCell_bind (writeCount_checkCell_bind
    (writeCount_onSheet fun _ => Nat.le_refl _) block.last) block.first sink

theorem createSheets_writeCount (wb : Workbook) (position : Nat) (sheets : List (Sheet × String)) :
    Keeps Sink.writeCount (wb.createSheets position sheets) := by
  induction sheets generalizing position with
  | nil => exact .pure _
  | cons entry rest ih =>
      obtain ⟨sheet, name⟩ := entry
      have created : Keeps Sink.writeCount (createSheet name) := fun sink => by
        show Sink.writeCount { sink with sheets := sink.sheets ++ [.mk name {} [] [] [] false []] } = _
        simp [Sink.writeCount, Sink.log]
      have configured : ∀ handle options, Keeps Sink.log (configure handle options) :=
        fun _ _ => onSheet_keepsMap fun _ => rfl
      refine created.bind fun handle => ?_
      refine ((configured handle _).comp fun log => (log.map fun entry => entry.2.length).sum).bind ?_
      exact fun _ => (ih _).bind fun _ => .pure _

end SinkM

/-! ## Writing with a list of what is handed on -/

/-- A writing together with the cells that were handed to the sink, latest first. -/
structure Handing where
  writing : Writing
  handed : List CellId

/-- An operation that writes and lists the cells that it hands on. -/
abbrev HandM := ExceptT SheetError (StateM Handing)

namespace HandM

variable {α β : Type}

/-- Run an operation that hands on no cell. -/
def quietly (m : WriteM α) : HandM α :=
  fun h => let (r, writing) := m.run h.writing; (r, { h with writing })

/-- Run an operation that hands on a cell. -/
def handing (c : CellId) (m : WriteM α) : HandM α := do
  modify fun h => { h with handed := c :: h.handed }
  quietly m

/-- Write a cell to a sheet, if it is placed; its location and style. -/
def writeLeaf (handle : Nat) (sheet : String) (c : CellId) :
    HandM (Option (Location × CellStyle)) := do
  match ((← quietly get).build.store.cell c).location with
  | none => return none
  | some l =>
    quietly (WriteM.ofBuild (BuildM.markWritten c))
    quietly (WriteM.ofBuild (BuildM.finishFormula sheet c))
    let n := ((← quietly get).build.store.cell c)
    let first : Cell := ⟨l.row, l.col⟩
    if 1 < n.merge.rows ∨ 1 < n.merge.cols then
      let last : Cell := ⟨l.row + n.merge.rows - 1, l.col + n.merge.cols - 1⟩
      handing c (WriteM.ofSink (SinkM.mergeCells handle ⟨first, last⟩ n.value n.style))
    else handing c (WriteM.ofSink (SinkM.writeCell handle first n.value n.style))
    return some (l, n.style)

/-- Write the sizes of cells, and how many cells there are. -/
def writeSizes (handle : Nat) (written : List (Location × CellStyle)) : WriteM Nat := do
  let widths := written.filterMap fun (l, style) => style.colWidth.map (l.col, ·)
  let heights := written.filterMap fun (l, style) => style.rowHeight.map (l.row, ·)
  for (col, width) in largestSizes widths do
    WriteM.ofSink (SinkM.setColumnWidth handle col width)
  for (row, height) in largestSizes heights do
    WriteM.ofSink (SinkM.setRowHeight handle row height)
  if written.any fun (_, style) => style.autofit == some true then
    WriteM.ofSink (SinkM.autofit handle)
  return written.length

/-- Write every cell under an element to a sheet, then sizes; the number of cells written. -/
def writeCells (root : Element) (handle : Nat) (sheet : String) : HandM Nat := do
  let cells := (← quietly get).build.store.leaves root
  let written := (← cells.mapM (writeLeaf handle sheet)).filterMap id
  quietly (writeSizes handle written)

/-- Write the tables of a sheet after its cells. -/
def finishSheet (wb : Workbook) (sheet : Sheet) (name : String) (handle cells : Nat) :
    WriteM Unit := do
  let attempts := (← get).build.config.tableNameAttempts
  let tables ←
    WriteM.defineTables sheet.element handle name (sheet.tableStyle.inherit wb.tableStyle) attempts
  WriteM.ofBuild (BuildM.note (.info ("sheet " ++ name ++ ": " ++ Number.natText cells
    ++ " cell(s), " ++ Number.natText tables ++ " table(s)")))

/-- Write the cells and the tables of a sheet. -/
def writeSheet (wb : Workbook) (sheet : Sheet) (name : String) (handle : Nat) : HandM Unit := do
  let cells ← writeCells sheet.element handle name
  quietly (finishSheet wb sheet name handle cells)

/-- Build a workbook into the sink and save it under a path; open it if there is a desktop. -/
def build (wb : Workbook) (path : String) (desktop : Option Desktop) : HandM Unit := do
  let names ← quietly (WriteM.ofBuild (BuildM.ofExcept wb.sheetNames))
  let sheets := wb.sheets.zip names
  quietly (desktop.forM fun d => WriteM.ofBuild (Workbook.checkWritable path d))
  quietly (WriteM.ofBuild wb.resolve)
  quietly (sheets.forM fun (sheet, name) => WriteM.ofBuild (wb.layOutSheet sheet name))
  let handles ← quietly (WriteM.ofSink (wb.createSheets 0 sheets))
  (sheets.zip handles).forM fun ((sheet, name), handle) => writeSheet wb sheet name handle
  quietly (WriteM.ofSink (SinkM.save path))
  quietly (WriteM.ofBuild (BuildM.note (.info ("saved " ++ path))))
  quietly (desktop.forM fun d => WriteM.ofBuild (Workbook.openFile path d))

/-- Build a workbook into a sink and save it under a path, and forget all names. -/
def write (wb : Workbook) (path : String) (desktop : Option Desktop) : HandM Unit :=
  tryFinally (build wb path desktop)
    (quietly (modify fun s => { s with build := s.build.clearAll }))

/-! ## The list changes nothing -/

/-- Whether an operation is another one but for the list. -/
def Erases (m : HandM α) (m' : WriteM α) : Prop :=
  ∀ h, (m' h.writing : Except SheetError α × Writing) =
    ((m h : Except SheetError α × Handing).1, (m h : Except SheetError α × Handing).2.writing)

theorem erases_quietly (m : WriteM α) : Erases (quietly m) m :=
  fun _ => rfl

theorem Erases.pure (a : α) : Erases (pure a) (Pure.pure a) :=
  fun _ => rfl

theorem Erases.bind {m : HandM α} {m' : WriteM α} {f : α → HandM β} {f' : α → WriteM β}
    (hm : Erases m m') (hf : ∀ a, Erases (f a) (f' a)) : Erases (m >>= f) (m' >>= f') := by
  intro h
  have first := hm h
  rw [bind_apply, bind_apply, first]
  generalize (m h : Except SheetError α × Handing) = out
  rcases out with ⟨e | a, t⟩
  · rfl
  · exact hf a t

theorem erases_handing (c : CellId) (m : WriteM α) : Erases (handing c m) m :=
  fun _ => rfl

theorem Erases.ite {p : Prop} [Decidable p] {m n : HandM α} {m' n' : WriteM α}
    (hm : Erases m m') (hn : Erases n n') :
    Erases (if p then m else n) (if p then m' else n') := by
  split
  · exact hm
  · exact hn

theorem Erases.mapM {f : α → HandM β} {f' : α → WriteM β} (h : ∀ a, Erases (f a) (f' a))
    (l : List α) : Erases (l.mapM f) (l.mapM f') := by
  induction l with
  | nil => exact .pure []
  | cons a l ih =>
      rw [List.mapM_cons, List.mapM_cons]
      exact (h a).bind fun b => ih.bind fun bs => .pure _

theorem Erases.forM {f : α → HandM Unit} {f' : α → WriteM Unit} (h : ∀ a, Erases (f a) (f' a))
    (l : List α) : Erases (l.forM f) (l.forM f') := by
  induction l with
  | nil => exact .pure _
  | cons a l ih => exact (h a).bind fun _ => ih

theorem erases_writeLeaf (handle : Nat) (sheet : String) (c : CellId) :
    Erases (writeLeaf handle sheet c) (WriteM.writeLeaf handle sheet c) := by
  refine (erases_quietly get).bind fun w => ?_
  cases (w.build.store.cell c).location with
  | none => exact .pure _
  | some l =>
      refine (erases_quietly _).bind fun _ => (erases_quietly _).bind fun _ =>
        (erases_quietly get).bind fun _ => ?_
      exact .ite ((erases_handing c _).bind fun _ => .pure _)
        ((erases_handing c _).bind fun _ => .pure _)

theorem erases_writeSheet (wb : Workbook) (sheet : Sheet) (name : String) (handle : Nat) :
    Erases (writeSheet wb sheet name handle) (wb.writeSheet sheet name handle) := by
  have cells : Erases (writeCells sheet.element handle name)
      (WriteM.writeCells sheet.element handle name) :=
    (erases_quietly get).bind fun _ => (Erases.mapM (erases_writeLeaf handle name) _).bind fun _ =>
      erases_quietly (writeSizes handle _)
  exact cells.bind fun count => erases_quietly (finishSheet wb sheet name handle count)

theorem erases_build (wb : Workbook) (path : String) (desktop : Option Desktop) :
    Erases (build wb path desktop) (wb.build path desktop) := by
  refine (erases_quietly _).bind fun names => (erases_quietly _).bind fun _ =>
    (erases_quietly _).bind fun _ => (erases_quietly _).bind fun _ =>
    (erases_quietly _).bind fun handles => ?_
  refine (Erases.forM (fun _ => erases_writeSheet wb _ _ _) _).bind fun _ => ?_
  exact (erases_quietly _).bind fun _ => (erases_quietly _).bind fun _ => erases_quietly _

/-- Writing with the list is writing. -/
theorem erases_write (wb : Workbook) (path : String) (desktop : Option Desktop) :
    Erases (write wb path desktop) (wb.write path desktop) := by
  intro h
  rw [write, Workbook.write, tryFinally_apply, tryFinally_apply, erases_build wb path desktop h]
  rfl

/-! ## What the list shows -/

/-- Whether the list shows cells that were handed on since a start: none of them twice, none that was
written before, and all of them written since.  More is not written than is handed on. -/
structure Accounted (start : Writing) (h : Handing) : Prop where
  once : h.handed.Nodup
  blank : ∀ c ∈ h.handed, start.build.store.latches c = false
  closed : ∀ c ∈ h.handed, h.writing.build.store.latches c = true
  stays : ∀ c, start.build.store.latches c = true → h.writing.build.store.latches c = true
  count : h.writing.sink.writeCount ≤ start.sink.writeCount + h.handed.length

theorem Accounted.start (w : Writing) : Accounted w ⟨w, []⟩ where
  once := .nil
  blank := by simp
  closed := by simp
  stays _ h := h
  count := Nat.le_refl _

/-- What the list depends on. -/
def ledger (w : Writing) : (CellId → Bool) × Nat :=
  (w.build.store.latches, w.sink.writeCount)

variable {start : Writing} {h : Handing}

theorem Accounted.quietly {m : WriteM α} (acc : Accounted start h) (keeps : Keeps ledger m) :
    Accounted start (quietly m h : Except SheetError α × Handing).2 := by
  obtain ⟨latches, count⟩ := Prod.mk.inj (keeps h.writing)
  exact ⟨acc.once, acc.blank, fun c hc => (congrFun latches c).trans (acc.closed c hc),
    fun c hc => (congrFun latches c).trans (acc.stays c hc), count.trans_le acc.count⟩

/-- Whether an operation keeps the list right, whether or not it fails. -/
def Accounts (m : HandM α) : Prop :=
  ∀ start h, Accounted start h → Accounted start (m h : Except SheetError α × Handing).2

theorem accounts_quietly {m : WriteM α} (keeps : Keeps ledger m) : Accounts (quietly m) :=
  fun _ _ acc => acc.quietly keeps

theorem Accounts.pure (a : α) : Accounts (pure a : HandM α) :=
  fun _ _ acc => acc

theorem Accounts.bind {m : HandM α} {f : α → HandM β} (hm : Accounts m)
    (hf : ∀ a, Accounts (f a)) : Accounts (m >>= f) := by
  intro start h acc
  have first := hm start h acc
  rw [bind_apply]
  generalize (m h : Except SheetError α × Handing) = out at first ⊢
  rcases out with ⟨e | a, t⟩
  · exact first
  · exact hf a start t first

theorem Accounts.mapM {f : α → HandM β} (hf : ∀ a, Accounts (f a)) (l : List α) :
    Accounts (l.mapM f) := by
  induction l with
  | nil => exact .pure []
  | cons a l ih =>
      rw [List.mapM_cons]
      exact (hf a).bind fun b => ih.bind fun bs => .pure _

theorem Accounts.forM {f : α → HandM Unit} (hf : ∀ a, Accounts (f a)) (l : List α) :
    Accounts (l.forM f) := by
  induction l with
  | nil => exact .pure _
  | cons a l ih => exact (hf a).bind fun _ => ih

/-! ## One cell -/

/-- Whether a cell may be handed on: it was written since the start and is not in the list yet. -/
structure Ready (start : Writing) (c : CellId) (h : Handing) : Prop where
  blank : start.build.store.latches c = false
  new : c ∉ h.handed
  closed : h.writing.build.store.latches c = true

theorem Ready.quietly {m : WriteM α} {c : CellId} (ready : Ready start c h)
    (keeps : Keeps ledger m) :
    Ready start c (quietly m h : Except SheetError α × Handing).2 :=
  ⟨ready.blank, ready.new, (congrFun (Prod.mk.inj (keeps h.writing)).1 c).trans ready.closed⟩

theorem ensures_ofBuild {m : BuildM α} {I : Handing → Prop} {Q : α → Handing → Prop}
    (hm : Ensures m h.writing.build (fun build => I ⟨{ h.writing with build }, h.handed⟩)
      fun a build => Q a ⟨{ h.writing with build }, h.handed⟩) :
    Ensures (HandM.quietly (WriteM.ofBuild m)) h I Q :=
  hm

theorem ensures_get_bind {f : Writing → HandM β} {I : Handing → Prop} {Q : β → Handing → Prop}
    (hf : Ensures (f h.writing) h I Q) : Ensures (HandM.quietly get >>= f) h I Q :=
  hf

/-- Marking a cell as written leaves the others as they are. -/
theorem Accounted.markWritten {c : CellId} (acc : Accounted start h) :
    Accounted start ⟨{ h.writing with build := { h.writing.build with
      store := h.writing.build.store.updateCell c ({ · with written := true }) } }, h.handed⟩ := by
  have stays : ∀ d, h.writing.build.store.latches d = true →
      (h.writing.build.store.updateCell c ({ · with written := true })).latches d = true := by
    intro d closed
    unfold latches
    rcases cell_updateCell_cases h.writing.build.store c d ({ · with written := true })
      with same | same
    · rw [same]
      exact closed
    · rw [same]
  exact ⟨acc.once, acc.blank, fun d hd => stays d (acc.closed d hd),
    fun d hd => stays d (acc.stays d hd), acc.count⟩

/-- A cell that can be marked as written was not handed on before. -/
theorem ready_markWritten {c : CellId} (acc : Accounted start h)
    (inside : h.writing.build.store.InStore (.cell c)) :
    Ensures (HandM.quietly (WriteM.ofBuild (BuildM.markWritten c))) h (Accounted start)
      fun _ t => Ready start c t := by
  refine ensures_ofBuild ((BuildM.markWritten_ensures c h.writing.build).imp ?_ ?_)
  · rintro b (rfl | rfl)
    · exact acc
    · exact acc.markWritten
  · rintro _ b - ⟨blank, rfl⟩
    refine ⟨?_, fun twice => ?_, congrArg CellNode.written (cell_updateCell_self _ _ inside)⟩
    · by_contra written
      exact Bool.false_ne_true
        (blank.symm.trans (acc.stays c (Bool.eq_true_of_not_eq_false written)))
    · exact Bool.false_ne_true (blank.symm.trans (acc.closed c twice))

/-- A cell that is ready may be handed on. -/
theorem Accounted.handing {c : CellId} {m : SinkM Unit} (acc : Accounted start h)
    (ready : Ready start c h)
    (count : ∀ sink, (m sink : Except SheetError Unit × Sink).2.writeCount ≤ sink.writeCount + 1) :
    Accounted start (handing c (WriteM.ofSink m) h : Except SheetError Unit × Handing).2 where
  once := List.nodup_cons.2 ⟨ready.new, acc.once⟩
  blank := List.forall_mem_cons.2 ⟨ready.blank, acc.blank⟩
  closed := List.forall_mem_cons.2 ⟨ready.closed, acc.closed⟩
  stays := acc.stays
  count := (count h.writing.sink).trans (Nat.add_le_add_right acc.count 1)

theorem ledger_ofBuild {m : BuildM α} (keeps : Keeps (fun b => b.store.latches) m) :
    Keeps ledger (WriteM.ofBuild m) :=
  fun w => Prod.ext (keeps w.build) rfl

theorem ensures_handing {c : CellId} {m : SinkM Unit} {r : α} (acc : Accounted start h)
    (ready : Ready start c h)
    (count : ∀ sink, (m sink : Except SheetError Unit × Sink).2.writeCount ≤ sink.writeCount + 1) :
    Ensures (handing c (WriteM.ofSink m) >>= fun _ => Pure.pure r) h (Accounted start)
      fun _ _ => True := by
  have handed : Ensures (handing c (WriteM.ofSink m)) h (Accounted start) fun _ _ => True :=
    ⟨acc.handing ready count, fun _ _ => trivial⟩
  exact handed.bind fun _ _ acc _ => .pure acc trivial

/-- A cell is handed on at most once, after it was marked as written. -/
theorem accounts_writeLeaf (handle : Nat) (sheet : String) (c : CellId) :
    Accounts (writeLeaf handle sheet c) := by
  intro start h acc
  suffices Ensures (writeLeaf handle sheet c) h (Accounted start) fun _ _ => True from this.1
  refine ensures_get_bind ?_
  cases place : (h.writing.build.store.cell c).location with
  | none => exact .pure acc trivial
  | some l =>
      have inside : h.writing.build.store.InStore (.cell c) := by
        by_contra outside
        rw [cell, get_eq_default (Nat.le_of_not_lt outside)] at place
        cases place
      refine (ready_markWritten acc inside).bind fun _ t acc ready => ?_
      have finish := ledger_ofBuild (BuildM.finishFormula_latches sheet c)
      have finished : Ensures (HandM.quietly (WriteM.ofBuild (BuildM.finishFormula sheet c))) t
          (Accounted start) fun _ u => Ready start c u :=
        ⟨acc.quietly finish, fun _ _ => ready.quietly finish⟩
      refine finished.bind fun _ u acc ready => ensures_get_bind (.ite (fun _ => ?_) fun _ => ?_)
      · exact ensures_handing acc ready (SinkM.writeCount_mergeCells _ _ _ _)
      · exact ensures_handing acc ready (SinkM.writeCount_writeCell _ _ _ _)

/-! ## Whole workbooks -/

theorem blind_ledger : WriteM.Blind Sink.log ledger :=
  fun _ _ same => Prod.ext rfl (congrArg (fun log => (log.map fun entry => entry.2.length).sum) same)

theorem accounts_writeCells (root : Element) (handle : Nat) (sheet : String) :
    Accounts (writeCells root handle sheet) := by
  refine (accounts_quietly Keeps.get).bind fun _ => ?_
  refine (Accounts.mapM (accounts_writeLeaf handle sheet) _).bind fun out => ?_
  exact accounts_quietly (WriteM.applySizes_keeps WriteM.unsized_log blind_ledger.parts _)

theorem accounts_writeSheet (wb : Workbook) (sheet : Sheet) (name : String) (handle : Nat) :
    Accounts (writeSheet wb sheet name handle) := by
  refine (accounts_writeCells _ handle name).bind fun cells => accounts_quietly ?_
  have noted : ∀ n, Keeps ledger (WriteM.ofBuild (BuildM.note n)) :=
    fun n => ledger_ofBuild (.modify fun _ => rfl)
  exact Keeps.get.bind fun _ => (WriteM.defineTables_keeps blind_ledger _ _ _).bind fun _ => noted _

theorem accounts_build (wb : Workbook) (path : String) (desktop : Option Desktop) :
    Accounts (build wb path desktop) := by
  have quiet : ∀ {γ : Type} {m : BuildM γ}, Keeps (fun b => b.store.latches) m →
      Accounts (HandM.quietly (WriteM.ofBuild m)) := fun keeps => accounts_quietly (ledger_ofBuild keeps)
  have onDesktop : ∀ {f : Desktop → BuildM Unit}, (∀ d, Keeps (fun b => b.store.latches) (f d)) →
      Accounts (HandM.quietly (desktop.forM fun d => WriteM.ofBuild (f d))) := by
    intro f keeps
    cases desktop with
    | none => exact accounts_quietly (.pure _)
    | some d => exact quiet (keeps d)
  have checked : ∀ d, Keeps (fun b => b.store.latches) (Workbook.checkWritable path d) := by
    intro d
    unfold Workbook.checkWritable
    split
    · exact .throw _
    · exact .pure _
  have laidOut : ∀ sheets : List (Sheet × String), Keeps ledger
      (sheets.forM fun entry => WriteM.ofBuild (wb.layOutSheet entry.1 entry.2)) :=
    fun sheets => .forM (fun _ => ledger_ofBuild ((BuildM.layOutSheet_brands wb _ _).comp Prod.fst)) sheets
  have created : ∀ sheets, Keeps ledger (WriteM.ofSink (wb.createSheets 0 sheets)) :=
    fun sheets w => Prod.ext rfl (SinkM.createSheets_writeCount wb 0 sheets w.sink)
  have saved : Keeps Sink.log (SinkM.save path) :=
    SinkM.save_keeps (fun _ _ => rfl) path
  have noted : ∀ n, Keeps (fun b => b.store.latches) (BuildM.note n) := fun _ => .modify fun _ => rfl
  apply (quiet (BuildM.ofExcept_keeps _)).bind
  intro names
  apply (onDesktop checked).bind
  intro _
  apply (quiet (BuildM.resolveFrom_lasting Build.lasting_latches wb [] wb.sheets)).bind
  intro _
  apply (accounts_quietly (laidOut _)).bind
  intro _
  apply (accounts_quietly (created _)).bind
  intro handles
  apply (Accounts.forM (fun _ => accounts_writeSheet wb _ _ _) _).bind
  intro _
  apply (accounts_quietly (WriteM.ofSink_keeps blind_ledger saved)).bind
  intro _
  apply (quiet (noted _)).bind
  intro _
  exact onDesktop fun d => (Workbook.openFile_keeps path d).comp latches

theorem accounts_write (wb : Workbook) (path : String) (desktop : Option Desktop) :
    Accounts (write wb path desktop) := by
  intro start h acc
  have forgets : Keeps ledger (modify fun w => { w with build := w.build.clearAll } : WriteM Unit) :=
    .modify fun _ => rfl
  rw [write, tryFinally_apply]
  exact (accounts_build wb path desktop start h acc).quietly forgets

end HandM

/-! ## Any number of workbooks -/

theorem state_tryFinally_modify {ε σ α : Type} (m : ExceptT ε (StateM σ) α) (f : σ → σ) (s : σ) :
    (tryFinally m (modify f : ExceptT ε (StateM σ) Unit) s : Except ε α × σ).2 =
      f (m s : Except ε α × σ).2 := by
  rw [tryFinally_apply]
  rfl

/-- One of the times that a workbook is written. -/
structure Call where
  /-- What is done to the build before, which may be anything but to take back that a cell is
  written. -/
  before : Build → Build
  latched : ∀ b c, b.store.latches c = true → (before b).store.latches c = true
  workbook : Workbook
  path : String
  desktop : Option Desktop
  sink : Sink

namespace Call

/-- The state in which the workbook is written. -/
def start (call : Call) (b : Build) : Writing :=
  ⟨call.before b, call.sink⟩

/-- The state after the workbook is written, or could not be. -/
def finish (call : Call) (b : Build) : Writing :=
  ((call.workbook.write call.path call.desktop).run (call.start b)).2

/-- The cells that are handed to the sink, latest first. -/
def handed (call : Call) (b : Build) : List CellId :=
  ((HandM.write call.workbook call.path call.desktop).run ⟨call.start b, []⟩).2.handed

/-- The states after each of some calls. -/
def finishes : Build → List Call → List Writing
  | _, [] => []
  | b, call :: rest => call.finish b :: finishes (call.finish b).build rest

/-- The cells that are handed to the sinks of some calls. -/
def allHanded : Build → List Call → List CellId
  | _, [] => []
  | b, call :: rest => call.handed b ++ allHanded (call.finish b).build rest

variable {b : Build} {calls : List Call}

theorem lookup?_finish (call : Call) (b : Build) (key : String) :
    (call.finish b).build.lookup? key = none := by
  have cleared : call.finish b = _ := state_tryFinally_modify _ _ (call.start b)
  rw [cleared]
  exact congrArg (Option.map Node.element) (SymbolTable.lookup_empty _ key)

theorem accounted_finish (call : Call) (b : Build) :
    HandM.Accounted (call.start b) ⟨call.finish b, call.handed b⟩ := by
  have erased := HandM.erases_write call.workbook call.path call.desktop ⟨call.start b, []⟩
  have same := congrArg (fun out : Except SheetError Unit × Writing => out.2) erased
  have acc := HandM.accounts_write call.workbook call.path call.desktop _ _
    (HandM.Accounted.start (call.start b))
  rw [finish, show ((call.workbook.write call.path call.desktop).run (call.start b)).2 = _ from same]
  exact acc

/-- Cells that were written before are not handed on. -/
theorem blank_of_mem_allHanded {c : CellId} (h : c ∈ allHanded b calls) :
    b.store.latches c = false := by
  induction calls generalizing b with
  | nil => cases h
  | cons call rest ih =>
      have acc := call.accounted_finish b
      by_contra written
      have latched := call.latched b c (Bool.eq_true_of_not_eq_false written)
      rcases List.mem_append.1 h with here | later
      · exact Bool.false_ne_true ((acc.blank c here).symm.trans latched)
      · exact Bool.false_ne_true ((ih later).symm.trans (acc.stays c latched))

theorem nodup_allHanded (b : Build) (calls : List Call) : (allHanded b calls).Nodup := by
  induction calls generalizing b with
  | nil => exact .nil
  | cons call rest ih =>
      have acc := call.accounted_finish b
      refine List.Nodup.append acc.once (ih _) fun c here later => ?_
      exact Bool.false_ne_true ((blank_of_mem_allHanded later).symm.trans (acc.closed c here))

theorem lookup?_of_mem_finishes {w : Writing} (h : w ∈ finishes b calls) (key : String) :
    w.build.lookup? key = none := by
  induction calls generalizing b with
  | nil => cases h
  | cons call rest ih =>
      rcases List.mem_cons.1 h with rfl | later
      · exact call.lookup?_finish b key
      · exact ih later

end Call

/-- However often workbooks are written, and whether or not that succeeds, every cell is handed to a
sink at most once, and no name is known after any of the times.  The cells that are handed on are
those that writing hands on: the list of them changes nothing else, and no more is written to the
sheets of a sink. -/
theorem Workbook.write_handsOnce (b : Build) (calls : List Call) :
    (Call.allHanded b calls).Nodup ∧
      (∀ w ∈ Call.finishes b calls, ∀ key, w.build.lookup? key = none) ∧
      ∀ call : Call,
        HandM.Erases (HandM.write call.workbook call.path call.desktop)
          (call.workbook.write call.path call.desktop) ∧
        (call.finish b).sink.writeCount ≤ call.sink.writeCount + (call.handed b).length :=
  ⟨Call.nodup_allHanded b calls, fun _ hw => Call.lookup?_of_mem_finishes hw, fun call =>
    ⟨HandM.erases_write _ _ _, (call.accounted_finish b).count⟩⟩

end Spreadsheet
