import Spreadsheet.Proofs.Layout.Book
import Spreadsheet.Proofs.Layout.Write
import Spreadsheet.Proofs.Resolve.Evolution

/-!
# Writing a workbook

A workbook that is written has been resolved and laid out before, and all of its sheets are written
in order, each under its name and with all of its cells.
-/

namespace Spreadsheet

open Store

variable {s t : Store} {w w' : Writing} {wb : Workbook} {r : Unit}

/-! ## Sheets in order -/

theorem Workbook.createSheets_map {τ : Type} {p : WrittenSheet → τ}
    (plain : ∀ s options, p { s with options } = p s) {sink sink' : Sink} {handles : List Nat}
    (position : Nat) {sheets : List (Sheet × String)}
    (h : Runs (wb.createSheets position sheets) sink handles sink') :
    handles = List.range' sink.sheets.length sheets.length ∧ sink'.sheets.map p =
      sink.sheets.map p ++ sheets.map fun entry => p (.mk entry.2 {} [] [] [] false []) := by
  induction sheets generalizing sink handles position with
  | nil =>
      obtain ⟨rfl, rfl⟩ := runs_pure.1 h
      simp
  | cons entry rest ih =>
      obtain ⟨sheet, name⟩ := entry
      obtain ⟨handle, m, created, h⟩ := runs_bind.1 h
      obtain ⟨_, m', configured, h⟩ := runs_bind.1 h
      obtain ⟨others, m'', more, h⟩ := runs_bind.1 h
      obtain ⟨rfl, rfl⟩ := runs_pure.1 h
      obtain ⟨_, _, got, created⟩ := runs_bind.1 created
      obtain ⟨rfl, rfl⟩ := runs_get.1 got
      obtain ⟨_, m₂, stored, created⟩ := runs_bind.1 created
      obtain rfl := runs_set.1 stored
      obtain ⟨rfl, rfl⟩ := runs_pure.1 created
      have kept : m'.sheets.map p =
          sink.sheets.map p ++ [p (.mk name {} [] [] [] false [])] := by
        have same : Keeps (fun sink : Sink => sink.sheets.map p)
            (SinkM.configure sink.sheets.length (sheet.options wb position)) :=
          SinkM.onSheet_keepsMap fun s => plain s _
        rw [same.of_runs configured]
        simp
      have length : m'.sheets.length = sink.sheets.length + 1 := by
        simpa using congrArg List.length kept
      obtain ⟨numbers, made⟩ := ih (position + 1) more
      rw [length] at numbers
      rw [kept] at made
      refine ⟨?_, ?_⟩
      · rw [numbers]
        simp [List.range'_succ]
      · rw [made]
        simp

theorem Workbook.createSheets_log {sink sink' : Sink} {handles : List Nat} (position : Nat)
    {sheets : List (Sheet × String)}
    (h : Runs (wb.createSheets position sheets) sink handles sink') :
    handles = List.range' sink.log.length sheets.length ∧
      sink'.log = sink.log ++ sheets.map fun entry => (entry.2, []) := by
  obtain ⟨numbers, log⟩ := createSheets_map (p := fun s => (s.name, s.writes)) (fun _ _ => rfl)
    position h
  refine ⟨?_, log⟩
  rw [numbers, Sink.log, List.length_map]

theorem modify_append_cons {α : Type} (l : List α) (a : α) (rest : List α) (f : α → α) :
    (l ++ a :: rest).modify l.length f = l ++ f a :: rest := by
  induction l with
  | nil => rfl
  | cons b l ih => rw [List.cons_append, List.length_cons, List.modify_succ_cons, ih]; rfl

theorem Workbook.writeSheet_written {sheet : Sheet} {name : String} {handle : Nat}
    (wf : w.build.store.WellFormed) (hroot : w.build.store.InStore sheet.element)
    (placed : ∀ c ∈ w.build.store.leaves sheet.element, (w.build.store.cell c).location.isSome)
    (h : Runs (wb.writeSheet sheet name handle) w r w') :
    Inks (w.build.store.leaves sheet.element) w.build.store w'.build.store ∧ ∃ entries,
      List.Forall₂ (Written w'.build.store name) (w.build.store.leaves sheet.element) entries ∧
        w'.sink.log = w.sink.log.modify handle fun p => (p.1, entries.reverse ++ p.2) := by
  obtain ⟨count, m, cells, h⟩ := runs_bind.1 h
  have noted : ∀ n : Notice, Keeps WriteM.cellPart (WriteM.ofBuild (BuildM.note n)) :=
    fun n => WriteM.ofBuild_keeps (.modify fun _ => rfl)
  have rest : Keeps WriteM.cellPart (do
      let attempts := (← get).build.config.tableNameAttempts
      let tables ←
        WriteM.defineTables sheet.element handle name (sheet.tableStyle.inherit wb.tableStyle) attempts
      WriteM.ofBuild (BuildM.note (.info ("sheet " ++ name ++ ": " ++ Number.natText count
        ++ " cell(s), " ++ Number.natText tables ++ " table(s)")))) :=
    Keeps.get.bind fun _ => (WriteM.defineTables_keeps WriteM.blind_cellPart _ _ _).bind fun _ => noted _
  obtain ⟨stored, logged⟩ := Prod.mk.inj (rest.of_runs h)
  rw [stored, logged]
  exact WriteM.writeCells_written wf hroot placed cells

/-- Whether a sheet's entry in the log of a sink has its name and, in order, its cells. -/
def Logged (s : Store) (entry : Sheet × String) (out : String × List CellWrite) : Prop :=
  out.1 = entry.2 ∧
    List.Forall₂ (s.Written entry.2) (s.leaves entry.1.element) out.2.reverse

theorem writeSheets_written {sheets : List (Sheet × String)} (wf : w.build.store.WellFormed)
    (hroots : ∀ entry ∈ sheets, w.build.store.InStore entry.1.element)
    (placed : ∀ entry ∈ sheets, ∀ c ∈ w.build.store.leaves entry.1.element,
      (w.build.store.cell c).location.isSome)
    (done : List (String × List CellWrite))
    (log : w.sink.log = done ++ sheets.map fun entry => (entry.2, []))
    (h : Runs ((sheets.zip (List.range' done.length sheets.length)).forM fun entry =>
      wb.writeSheet entry.1.1 entry.1.2 entry.2) w r w') :
    Inks (sheets.flatMap fun entry => w.build.store.leaves entry.1.element)
        w.build.store w'.build.store ∧
      ∃ outs, w'.sink.log = done ++ outs ∧ List.Forall₂ (Logged w'.build.store) sheets outs := by
  induction sheets generalizing w done with
  | nil =>
      obtain rfl := runs_forM_nil.1 h
      exact ⟨.nil _, [], log, .nil⟩
  | cons entry rest ih =>
      rw [List.length_cons, List.range'_succ, List.zip_cons_cons] at h
      obtain ⟨m, first, others⟩ := runs_forM_cons.1 h
      obtain ⟨inks, entries, written, log'⟩ := Workbook.writeSheet_written wf
        (hroots entry (by simp)) (placed entry (by simp)) first
      rw [log, List.map_cons, modify_append_cons, List.append_nil] at log'
      have same : ∀ e, m.build.store.leaves e = w.build.store.leaves e :=
        inks.toAlike.leaves_eq wf.acyclic
      have length : (done ++ [(entry.2, entries.reverse)]).length = done.length + 1 := by simp
      rw [← length] at others
      obtain ⟨inks', outs, final, all⟩ := ih (inks.toAlike.wellFormed wf)
        (fun other hother => (inks.inStore _).2 (hroots other (List.mem_cons_of_mem _ hother)))
        (fun other hother c hc => by
          rw [inks.location_eq c]
          exact placed other (List.mem_cons_of_mem _ hother) c (same _ ▸ hc))
        (done ++ [(entry.2, entries.reverse)]) (by rw [log', List.append_assoc]; rfl) others
      simp only [same] at inks'
      have both := inks.append inks'
      refine ⟨both, (entry.2, entries.reverse) :: outs, by rw [final, List.append_assoc]; rfl,
        .cons ⟨rfl, ?_⟩ all⟩
      rw [List.reverse_reverse, both.toAlike.leaves_eq wf.acyclic]
      exact Written.all_later written inks' fun c hc later =>
        (List.nodup_append.1 both.once).2.2 c hc c later rfl

/-! ## A whole build -/

theorem length_namesFrom {position : Nat} {taken names : List String} {sheets : List Sheet}
    (h : Workbook.namesFrom position taken sheets = .ok names) : names.length = sheets.length := by
  induction sheets generalizing position taken names with
  | nil => rw [← Except.ok.inj h]; rfl
  | cons sheet rest ih =>
      simp only [Workbook.namesFrom, bind_eq_ok_iff] at h
      obtain ⟨name, -, h⟩ := h
      split at h
      case isTrue => cases h
      case isFalse =>
        obtain ⟨others, later, h⟩ := bind_eq_ok_iff.1 h
        rw [← Except.ok.inj h, List.length_cons, List.length_cons, ih later]

namespace BuildM

variable {b b' : Build}

theorem eq_of_ofExcept {α : Type} {x : Except SheetError α} {a : α}
    (h : Runs (ofExcept x) b a b') : x = .ok a ∧ b = b' := by
  cases x with
  | ok c =>
      obtain ⟨rfl, rfl⟩ := runs_pure.1 h
      exact ⟨rfl, rfl⟩
  | error e => exact absurd h not_runs_throw

end BuildM

theorem Workbook.openFile_keeps (path : String) (desktop : Desktop) :
    Keeps Build.store (Workbook.openFile path desktop) := by
  refine Keeps.bind (.modify fun _ => rfl) fun _ => ?_
  split
  · exact .throw _
  · exact .pure _

theorem eq_of_checkWritable {path : String} {desktop : Option Desktop}
    (h : Runs (desktop.forM fun d => WriteM.ofBuild (Workbook.checkWritable path d)) w r w') :
    w = w' := by
  have same : Keeps id (desktop.forM fun d => WriteM.ofBuild (Workbook.checkWritable path d)) := by
    cases desktop with
    | none => exact .pure _
    | some d =>
        have check : Keeps id (Workbook.checkWritable path d) := by
          unfold Workbook.checkWritable
          split
          · exact .throw _
          · exact .pure _
        exact fun w => congrArg (fun build => { w with build }) (check w.build)
  exact (same.of_runs h).symm

theorem of_openFile {path : String} {desktop : Option Desktop}
    (h : Runs (desktop.forM fun d => WriteM.ofBuild (Workbook.openFile path d)) w r w') :
    w'.build.store = w.build.store ∧ w'.sink = w.sink := by
  have same : Keeps (fun w => (w.build.store, w.sink))
      (desktop.forM fun d => WriteM.ofBuild (Workbook.openFile path d)) := by
    cases desktop with
    | none => exact .pure _
    | some d => exact fun w => Prod.ext (Workbook.openFile_keeps path d w.build) rfl
  exact Prod.mk.inj (same.of_runs h)

/-- How a workbook is written: it is resolved, laid out, and put into the sink, and whatever follows
changes neither cells nor what was written to them. -/
structure Workbook.Stages (wb : Workbook) (w : Writing) (names : List String) (resolved : Build)
    (laid : Writing) (handles : List Nat) (sink : Sink) (inked w' : Writing) : Prop where
  named : wb.sheetNames = .ok names
  resolves : Runs wb.resolve w.build () resolved
  laysOut : Runs ((wb.sheets.zip names).forM fun entry =>
    WriteM.ofBuild (wb.layOutSheet entry.1 entry.2)) { w with build := resolved } () laid
  creates : Runs (wb.createSheets 0 (wb.sheets.zip names)) laid.sink handles sink
  writes : Runs (((wb.sheets.zip names).zip handles).forM fun entry =>
    wb.writeSheet entry.1.1 entry.1.2 entry.2) { laid with sink } () inked
  store : w'.build.store = inked.build.store
  sheets : w'.sink.sheets = inked.sink.sheets

theorem Workbook.stages_of_write {path : String} {desktop : Option Desktop}
    (h : Runs (wb.write path desktop) w r w') :
    ∃ names resolved laid handles sink inked, wb.Stages w names resolved laid handles sink inked w' := by
  obtain ⟨m, _, built, cleared⟩ := runs_tryFinally.1 h
  obtain rfl := runs_modify.1 cleared
  simp only [Workbook.build, runs_bind, WriteM.runs_ofBuild, WriteM.runs_ofSink] at built
  obtain ⟨names, _, ⟨_, named, rfl⟩, built⟩ := built
  obtain ⟨sheetNames, rfl⟩ := BuildM.eq_of_ofExcept named
  obtain ⟨_, m₁, writable, _, _, ⟨resolved, resolves, rfl⟩, _, m₂, layOut, handles, _,
    ⟨sink, created, rfl⟩, _, m₃, written, _, _, ⟨saved, save, rfl⟩, _, _, ⟨noted, note, rfl⟩,
    opened⟩ := built
  obtain rfl := eq_of_checkWritable writable
  obtain ⟨store, sink'⟩ := of_openFile opened
  have kept : Keeps Sink.sheets (SinkM.save path) := SinkM.save_keeps (fun _ _ => rfl) path
  exact ⟨names, resolved, m₂, handles, sink, m₃, sheetNames, resolves, layOut, created, written,
    store.trans (BuildM.store_of_note note), (congrArg Sink.sheets sink').trans (kept.of_runs save)⟩

theorem Workbook.Stages.log {names : List String} {resolved : Build} {laid : Writing}
    {handles : List Nat} {sink : Sink} {inked : Writing}
    (stages : wb.Stages w names resolved laid handles sink inked w') :
    w'.sink.log = inked.sink.log := by
  rw [Sink.log, stages.sheets, Sink.log]

/-- What a workbook goes through while it is written: it is resolved, laid out, and put into the
sink. -/
structure Workbook.Built (wb : Workbook) (w : Writing) (names : List String) (resolved : Build)
    (laid : Store) (w' : Writing) : Prop where
  named : wb.sheetNames = .ok names
  resolves : Runs wb.resolve w.build () resolved
  laidOut : AllLaidOut resolved.store laid (wb.sheets.zip names)
  inks : Inks ((wb.sheets.zip names).flatMap fun entry => laid.leaves entry.1.element) laid
    w'.build.store
  logged : List.Forall₂ (Logged w'.build.store) (wb.sheets.zip names) w'.sink.log

theorem Workbook.Stages.built {names : List String} {resolved : Build} {laid : Writing}
    {handles : List Nat} {sink : Sink} {inked : Writing}
    (stages : wb.Stages w names resolved laid handles sink inked w') (wf : w.build.store.WellFormed)
    (hsheets : ∀ sheet ∈ wb.sheets, w.build.store.InStore sheet.element)
    (fresh : w.sink.sheets = []) : wb.Built w names resolved laid.build.store w' := by
  have evolves := BuildM.workbookResolve_evolves wf hsheets stages.resolves
  have mapped : ∀ entry ∈ wb.sheets.zip names, entry.1 ∈ wb.sheets :=
    fun entry hentry => (List.of_mem_zip hentry).1
  obtain ⟨laidOut, sunk⟩ := layOutSheets_allLaidOut evolves.wf
    (fun entry hentry => evolves.held _ (hsheets _ (mapped entry hentry))) stages.laysOut
  obtain ⟨handles_eq, log⟩ := Workbook.createSheets_log 0 stages.creates
  have empty : laid.sink.log = [] := by rw [sunk, Sink.log, fresh]; rfl
  have written := stages.writes
  rw [empty] at handles_eq log
  rw [handles_eq] at written
  obtain ⟨inks, outs, logged, all⟩ := writeSheets_written (w := ⟨laid.build, sink⟩) laidOut.grows.wf
    (fun entry hentry => laidOut.grows.held _ (evolves.held _ (hsheets _ (mapped entry hentry))))
    laidOut.located [] log written
  refine ⟨stages.named, stages.resolves, laidOut, ?_, ?_⟩
  · rw [stages.store]
    exact inks
  · rw [stages.store, stages.log, logged]
    exact all

theorem Workbook.built_of_write {path : String} {desktop : Option Desktop}
    (wf : w.build.store.WellFormed)
    (hsheets : ∀ sheet ∈ wb.sheets, w.build.store.InStore sheet.element)
    (fresh : w.sink.sheets = []) (h : Runs (wb.write path desktop) w r w') :
    ∃ names resolved laid, wb.Built w names resolved laid w' := by
  obtain ⟨names, resolved, laid, handles, sink, inked, stages⟩ := wb.stages_of_write h
  exact ⟨names, resolved, laid.build.store, stages.built wf hsheets fresh⟩

end Spreadsheet
