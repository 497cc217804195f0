import Spreadsheet.Proofs.Formula.Rendering
import Spreadsheet.Proofs.Layout.Sheet

/-!
# What is written to a sheet

A cell that has a place is written once, to the block that it covers.  Writing changes neither the
trees nor the places, so that what was written of a cell stays true of it.
-/

namespace Spreadsheet

open Store

variable {s t u : Store} {sheet : String} {handle : Nat}

/-! ## The log of a sink -/

/-- The names of the sheets of a sink, each with what was written to cells of it, latest first. -/
def Sink.log (sink : Sink) : List (String × List CellWrite) :=
  sink.sheets.map fun s => (s.name, s.writes)

/-- What is read of each sheet of a sink, and the names that are taken. -/
def Sink.parts {τ : Type} (p : WrittenSheet → τ) (sink : Sink) : List τ × List String :=
  (sink.sheets.map p, sink.tableNames)

namespace SinkM

variable {sink sink' : Sink} {r : Unit}

theorem map_modify {α β : Type} {f : α → α} {g : α → β} {f' : β → β} (h : ∀ a, g (f a) = f' (g a))
    (l : List α) (i : Nat) : (l.modify i f).map g = (l.map g).modify i f' := by
  induction l generalizing i with
  | nil => simp
  | cons a l ih =>
      cases i with
      | zero => simp [h]
      | succ i => simp [ih]

theorem log_of_onSheet {f : WrittenSheet → WrittenSheet}
    {f' : String × List CellWrite → String × List CellWrite}
    (h : ∀ s, ((f s).name, (f s).writes) = f' (s.name, s.writes))
    (run : Runs (onSheet handle f) sink r sink') : sink'.log = sink.log.modify handle f' := by
  obtain ⟨_, _, got, run⟩ := runs_bind.1 run
  obtain ⟨rfl, rfl⟩ := runs_get.1 got
  split at run
  case isTrue =>
    rw [← runs_set.1 run]
    exact map_modify h _ _
  case isFalse => exact absurd run not_runs_throw

theorem onSheet_apply (f : WrittenSheet → WrittenSheet) (sink : Sink) :
    (onSheet handle f sink : Except SheetError Unit × Sink) =
      if handle < sink.sheets.length then
        (.ok (), { sink with sheets := sink.sheets.modify handle f })
      else (.error (unknownSheet sink.medium handle), sink) := by
  show (if handle < sink.sheets.length then
    set { sink with sheets := sink.sheets.modify handle f }
    else throw (unknownSheet sink.medium handle) : SinkM Unit) sink = _
  split <;> rfl

theorem onSheet_keeps {τ : Type} {p : WrittenSheet → τ} {f : WrittenSheet → WrittenSheet}
    (h : ∀ s, p (f s) = p s) : Keeps (Sink.parts p) (onSheet handle f) := by
  intro sink
  rw [onSheet_apply]
  split
  · have same : (sink.sheets.modify handle f).map p = (sink.sheets.map p).modify handle id :=
      map_modify h _ _
    rw [List.modify_id] at same
    exact Prod.ext same rfl
  · rfl

theorem onSheet_keepsMap {τ : Type} {p : WrittenSheet → τ} {f : WrittenSheet → WrittenSheet}
    (h : ∀ s, p (f s) = p s) : Keeps (fun sink => sink.sheets.map p) (onSheet handle f) :=
  (onSheet_keeps h).comp Prod.fst

theorem checkCell_keeps {τ : Type} {part : Sink → τ} (c : Cell) : Keeps part (checkCell c) :=
  Keeps.get.bind fun _ => .ite (.throw _) (.pure _)

theorem eq_of_checkCell {c : Cell} (run : Runs (checkCell c) sink r sink') : sink' = sink :=
  Keeps.of_runs (show Keeps id (checkCell c) from checkCell_keeps c) run

section

variable {τ : Type} {p : WrittenSheet → τ}

/-- Whether something that is read of a sheet has nothing to do with sizes. -/
def Unsized (p : WrittenSheet → τ) : Prop :=
  ∀ s widths heights autofit, p { s with widths, heights, autofit } = p s

theorem setColumnWidth_keeps (unsized : Unsized p) (col : Nat) (width : Float) :
    Keeps (Sink.parts p) (setColumnWidth handle col width) :=
  (checkCell_keeps _).bind fun _ => onSheet_keeps fun s => unsized s _ s.heights s.autofit

theorem setRowHeight_keeps (unsized : Unsized p) (row : Nat) (height : Float) :
    Keeps (Sink.parts p) (setRowHeight handle row height) :=
  (checkCell_keeps _).bind fun _ => onSheet_keeps fun s => unsized s s.widths _ s.autofit

theorem autofit_keeps (unsized : Unsized p) :
    Keeps (Sink.parts p) (autofit handle) :=
  onSheet_keeps fun s => unsized s s.widths s.heights _

end

theorem checkTableStyle_keeps (options : TableOptions) :
    Keeps Sink.log (checkTableStyle options) := by
  unfold checkTableStyle
  split
  · exact .ite (.modify fun _ => rfl) (.pure _)
  · exact .pure _

theorem enterTable_keeps (handle : Nat) (table : TableSpec) : Keeps Sink.log (do
    match (← get).medium with
    | .memory =>
      takeTableName (Text.lowercase table.name)
      onSheet handle fun s => { s with tables := s.tables ++ [table] }
    | .file =>
      checkCell table.block.first
      checkCell table.block.last
      checkTableStyle table.options
      onSheet handle fun s => { s with tables := s.tables ++ [table] }
      takeTableName (Text.lowercase table.name)) := by
  have add : Keeps Sink.log (onSheet handle fun s => { s with tables := s.tables ++ [table] }) :=
    onSheet_keepsMap fun _ => rfl
  have take : ∀ key, Keeps Sink.log (takeTableName key) := fun key => .modify fun _ => rfl
  refine Keeps.get.bind fun sink => ?_
  split
  · exact (take _).bind fun _ => add
  · exact (checkCell_keeps _).bind fun _ => (checkCell_keeps _).bind fun _ =>
      (checkTableStyle_keeps _).bind fun _ => add.bind fun _ => take _

theorem defineTable_keeps (handle : Nat) (table : TableSpec) :
    Keeps Sink.log (defineTable handle table) :=
  Keeps.get.bind fun _ => .ite ((Keeps.throw _).bind fun _ => enterTable_keeps handle table)
    (enterTable_keeps handle table)

theorem save_keeps {τ : Type} {part : Sink → τ}
    (unsaved : ∀ sink savedTo, part { sink with savedTo } = part sink) (path : String) :
    Keeps part (save path) := by
  have saved : Keeps part (modify fun sink => { sink with savedTo := some path } : SinkM Unit) :=
    .modify fun sink => unsaved sink _
  refine Keeps.get.bind fun sink => ?_
  dsimp only
  split
  · exact (Keeps.throw _).bind fun _ => saved
  · exact saved

theorem log_of_writeCell {cell : Cell} {value : CellValue} {style : CellStyle}
    (run : Runs (writeCell handle cell value style) sink r sink') : sink'.log =
      sink.log.modify handle fun p => (p.1, ⟨⟨cell, cell⟩, false, value, style⟩ :: p.2) := by
  obtain ⟨_, m, checked, write⟩ := runs_bind.1 run
  obtain rfl := eq_of_checkCell checked
  exact log_of_onSheet (fun _ => rfl) write

theorem log_of_mergeCells {block : Block} {value : CellValue} {style : CellStyle}
    (run : Runs (mergeCells handle block value style) sink r sink') : sink'.log =
      sink.log.modify handle fun p => (p.1, ⟨block, true, value, style⟩ :: p.2) := by
  obtain ⟨_, m, first, rest⟩ := runs_bind.1 run
  obtain ⟨_, m', last, write⟩ := runs_bind.1 rest
  obtain rfl := eq_of_checkCell first
  obtain rfl := eq_of_checkCell last
  exact log_of_onSheet (fun _ => rfl) write

end SinkM

/-! ## One cell -/

/-- The block that an extent covers from a location on. -/
def Block.covering (l : Location) (e : Extent) : Block :=
  ⟨⟨l.row, l.col⟩, ⟨l.row + e.rows - 1, l.col + e.cols - 1⟩⟩

namespace Store

/-- Whether something was written for a cell of a sheet: the value of the cell, to the block that
the cell covers from its place on. -/
structure Written (s : Store) (sheet : String) (c : CellId) (w : CellWrite) : Prop where
  block : ∃ l, (s.cell c).location = some l ∧ w.block = .covering l (s.cell c).merge
  merged : w.merged = decide (1 < (s.cell c).merge.rows ∨ 1 < (s.cell c).merge.cols)
  value : w.value = (s.cell c).value
  style : w.style = (s.cell c).style
  formula : ∀ f, (s.cell c).formula = some f →
    ∃ text, (s.cell c).value = .formula text ∧ s.States sheet f text

/-- Whether two stores differ in nothing but what some cells hold, none of which was written in the
first, and all of which are in the second. -/
structure Inks (cells : List CellId) (s t : Store) : Prop extends Moves (fun _ => False) s t where
  once : cells.Nodup
  blank : ∀ c ∈ cells, (s.cell c).written = false
  inked : ∀ c ∈ cells, (t.cell c).written = true
  others : ∀ c, c ∉ cells → t.cell c = s.cell c

theorem Inks.nil (s : Store) : Inks [] s s where
  toMoves := .refl s
  once := .nil
  blank := by simp
  inked := by simp
  others _ _ := rfl

theorem Inks.append {cells more : List CellId} (first : Inks cells s t) (second : Inks more t u) :
    Inks (cells ++ more) s u := by
  have apart : ∀ c ∈ cells, c ∉ more := by
    intro c hc again
    have inked := first.inked c hc
    rw [second.blank c again] at inked
    cases inked
  refine ⟨first.toMoves.trans second.toMoves, ?_, fun c hc => ?_, fun c hc => ?_, fun c hc => ?_⟩
  · rw [List.nodup_append]
    exact ⟨first.once, second.once, fun c hc d hd same => apart c hc (same ▸ hd)⟩
  · by_cases early : c ∈ cells
    · exact first.blank c early
    · have late := (List.mem_append.1 hc).resolve_left early
      rw [← first.others c early]
      exact second.blank c late
  · by_cases late : c ∈ more
    · exact second.inked c late
    · have early := (List.mem_append.1 hc).resolve_right late
      rw [second.others c late]
      exact first.inked c early
  · rw [List.mem_append, not_or] at hc
    exact (second.others c hc.2).trans (first.others c hc.1)

theorem Inks.updateCell {cells : List CellId} (h : Inks cells s t) {c : CellId} (hc : c ∈ cells)
    {f : CellNode → CellNode} (merge : ∀ n, (f n).merge = n.merge)
    (location : ∀ n, (f n).location = n.location) (written : ∀ n, (f n).written = n.written) :
    Inks cells s (t.updateCell c f) where
  toMoves := h.toMoves.trans (moves_restyle t c merge location)
  once := h.once
  blank := h.blank
  inked d hd := by
    rcases cell_updateCell_cases t c d f with same | same
    · rw [same]
      exact h.inked d hd
    · rw [same, written]
      exact h.inked d hd
  others d hd := by
    have other : c ≠ d := fun same => hd (same ▸ hc)
    rw [cell_updateCell_of_ne t f other]
    exact h.others d hd

theorem Inks.location_eq {cells : List CellId} (h : Inks cells s t) (c : CellId) :
    (t.cell c).location = (s.cell c).location :=
  (h.toMoves.location (.cell c)).resolve_right id

theorem Written.later {cells : List CellId} {c : CellId} {w : CellWrite}
    (h : Written s sheet c w) (inks : Inks cells s t) (hc : c ∉ cells) : Written t sheet c w := by
  have same := inks.others c hc
  refine ⟨?_, ?_, ?_, ?_, ?_⟩
  · rw [same]
    exact h.block
  · rw [same]
    exact h.merged
  · rw [same]
    exact h.value
  · rw [same]
    exact h.style
  · rw [same]
    intro f hf
    obtain ⟨text, value, states⟩ := h.formula f hf
    exact ⟨text, value, states.congr inks.location_eq⟩

theorem Written.all_later {cells more : List CellId} {entries : List CellWrite}
    (h : List.Forall₂ (Written s sheet) cells entries) (inks : Inks more s t)
    (apart : ∀ c ∈ cells, c ∉ more) : List.Forall₂ (Written t sheet) cells entries := by
  induction h with
  | nil => exact .nil
  | cons first _ ih =>
      exact .cons (first.later inks (apart _ (by simp))) (ih fun c hc => apart c (by simp [hc]))

end Store

namespace BuildM

variable {b b' : Build} {r : Unit}

theorem markWritten_inks {c : CellId} (hc : b.store.InStore (.cell c))
    (h : Runs (markWritten c) b r b') : Inks [c] b.store b'.store := by
  obtain ⟨_, _, got, h⟩ := runs_bind.1 h
  obtain ⟨rfl, rfl⟩ := runs_get.1 got
  dsimp only at h
  split at h
  case isTrue =>
    obtain ⟨_, _, failed, -⟩ := runs_bind.1 h
    exact absurd failed not_runs_throw
  case isFalse blank =>
    obtain rfl := runs_changeStore.1 h
    refine ⟨moves_restyle _ c (fun _ => rfl) fun _ => rfl, List.nodup_singleton c, ?_, ?_, ?_⟩
    · simpa using blank
    · intro d hd
      rw [List.mem_singleton.1 hd]
      exact congrArg CellNode.written (cell_updateCell_self _ _ hc)
    · intro d hd
      exact cell_updateCell_of_ne _ _ fun same => hd (by simp [same])

theorem finishFormula_inks {c : CellId} (hc : b.store.InStore (.cell c)) (inks : Inks [c] s b.store)
    (h : Runs (finishFormula sheet c) b r b') : Inks [c] s b'.store ∧
      ∀ f, (b'.store.cell c).formula = some f →
        ∃ text, (b'.store.cell c).value = .formula text ∧ b'.store.States sheet f text := by
  obtain ⟨_, _, got, h⟩ := runs_bind.1 h
  obtain ⟨rfl, rfl⟩ := runs_get.1 got
  split at h
  case h_1 formula found =>
    obtain ⟨text, m, rendered, h⟩ := runs_bind.1 h
    obtain rfl := runs_changeStore.1 h
    have stored : m.store = b.store :=
      congrArg Prod.fst ((formulaText_keeps sheet formula).of_runs rendered)
    have value : (m.store.updateCell c fun n => { n with value := .formula text }).cell c =
        { b.store.cell c with value := .formula text } := by
      rw [stored]
      exact cell_updateCell_self _ _ hc
    have inks' : Inks [c] s (m.store.updateCell c fun n => { n with value := .formula text }) := by
      rw [stored]
      exact inks.updateCell (by simp) (fun _ => rfl) (fun _ => rfl) fun _ => rfl
    refine ⟨inks', fun f hf => ⟨text, congrArg CellNode.value value, ?_⟩⟩
    rw [value] at hf
    obtain rfl : formula = f := Option.some.inj (found.symm.trans hf)
    exact (formulaText_states rendered).congr fun d =>
      (inks'.location_eq d).trans (inks.location_eq d).symm
  case h_2 unset =>
    obtain ⟨-, rfl⟩ := runs_pure.1 h
    exact ⟨inks, fun f hf => absurd hf (unset f)⟩

end BuildM

namespace WriteM

variable {w w' : Writing}

theorem writeLeaf_written {c : CellId} (wf : w.build.store.WellFormed)
    (hc : w.build.store.InStore (.cell c)) (placed : (w.build.store.cell c).location.isSome)
    {r : Option (Location × CellStyle)} (h : Runs (writeLeaf handle sheet c) w r w') :
    Inks [c] w.build.store w'.build.store ∧ ∃ entry, Written w'.build.store sheet c entry ∧
      w'.sink.log = w.sink.log.modify handle fun p => (p.1, entry :: p.2) := by
  obtain ⟨l, hl⟩ := Option.isSome_iff_exists.1 placed
  obtain ⟨_, _, got, h⟩ := runs_bind.1 h
  obtain ⟨rfl, rfl⟩ := runs_get.1 got
  dsimp only at h
  rw [hl] at h
  obtain ⟨_, _, mark, h⟩ := runs_bind.1 h
  obtain ⟨b₁, marked, rfl⟩ := runs_ofBuild.1 mark
  have inks₁ := BuildM.markWritten_inks hc marked
  obtain ⟨_, _, finish, h⟩ := runs_bind.1 h
  obtain ⟨b₂, finished, rfl⟩ := runs_ofBuild.1 finish
  obtain ⟨inks, formula⟩ := BuildM.finishFormula_inks ((inks₁.inStore _).2 hc) inks₁ finished
  obtain ⟨_, _, got, h⟩ := runs_bind.1 h
  obtain ⟨rfl, rfl⟩ := runs_get.1 got
  have located : (b₂.store.cell c).location = some l := (inks.location_eq c).trans hl
  have merges := (inks.toAlike.wellFormed wf).merges c
  dsimp only at h
  split at h
  case isTrue large =>
    obtain ⟨_, _, write, h⟩ := runs_bind.1 h
    obtain ⟨sink, put, rfl⟩ := runs_ofSink.1 write
    obtain ⟨-, rfl⟩ := runs_pure.1 h
    exact ⟨inks, _, ⟨⟨l, located, rfl⟩, (decide_eq_true large).symm, rfl, rfl, formula⟩,
      SinkM.log_of_mergeCells put⟩
  case isFalse small =>
    obtain ⟨_, _, write, h⟩ := runs_bind.1 h
    obtain ⟨sink, put, rfl⟩ := runs_ofSink.1 write
    obtain ⟨-, rfl⟩ := runs_pure.1 h
    refine ⟨inks, _, ⟨⟨l, located, ?_⟩, (decide_eq_false small).symm, rfl, rfl, formula⟩,
      SinkM.log_of_writeCell put⟩
    have rows : (b₂.store.cell c).merge.rows = 1 := by omega
    have cols : (b₂.store.cell c).merge.cols = 1 := by omega
    simp [Block.covering, rows, cols]

/-! ## All cells of a sheet -/

theorem writeLeaves_written {cells : List CellId} (wf : w.build.store.WellFormed)
    (hcells : ∀ c ∈ cells, w.build.store.InStore (.cell c))
    (placed : ∀ c ∈ cells, (w.build.store.cell c).location.isSome)
    {out : List (Option (Location × CellStyle))}
    (h : Runs (cells.mapM (writeLeaf handle sheet)) w out w') :
    Inks cells w.build.store w'.build.store ∧ ∃ entries,
      List.Forall₂ (Written w'.build.store sheet) cells entries ∧
        w'.sink.log = w.sink.log.modify handle fun p => (p.1, entries.reverse ++ p.2) := by
  induction cells generalizing w out with
  | nil =>
      rw [List.mapM_nil, runs_pure] at h
      obtain ⟨-, rfl⟩ := h
      exact ⟨.nil _, [], .nil, (List.modify_id _ _).symm⟩
  | cons c rest ih =>
      rw [List.mapM_cons] at h
      obtain ⟨_, m, head, h⟩ := runs_bind.1 h
      obtain ⟨_, m', tail, h⟩ := runs_bind.1 h
      obtain ⟨-, rfl⟩ := runs_pure.1 h
      obtain ⟨inks, entry, written, log⟩ :=
        writeLeaf_written wf (hcells c (by simp)) (placed c (by simp)) head
      obtain ⟨inks', entries, all, log'⟩ := ih (inks.toAlike.wellFormed wf)
        (fun d hd => (inks.inStore _).2 (hcells d (List.mem_cons_of_mem _ hd)))
        (fun d hd => by
          rw [inks.location_eq d]
          exact placed d (List.mem_cons_of_mem _ hd)) tail
      have both := inks.append inks'
      refine ⟨both, entry :: entries, .cons (written.later inks' ?_) all, ?_⟩
      · exact (List.nodup_cons.1 both.once).1
      · rw [log', log, List.modify_modify_eq]
        congr 1
        funext p
        simp

/-- What a sheet and the store have to do with cells. -/
def cellPart (w : Writing) : Store × List (String × List CellWrite) :=
  (w.build.store, w.sink.log)

theorem ofBuild_keeps {α : Type} {m : BuildM α} (h : Keeps Build.store m) :
    Keeps cellPart (ofBuild m) :=
  fun w => Prod.ext (h w.build) rfl

/-- Whether a part of a writing shows nothing of the sink but what is looked at. -/
def Blind {τ υ : Type} (look : Sink → υ) (part : Writing → τ) : Prop :=
  ∀ w sink, look sink = look w.sink → part { w with sink } = part w

theorem blind_cellPart : Blind Sink.log cellPart :=
  fun _ _ same => Prod.ext rfl same

theorem Blind.parts {τ υ : Type} {p : WrittenSheet → υ} {part : Writing → τ}
    (blind : Blind (fun sink => sink.sheets.map p) part) : Blind (Sink.parts p) part :=
  fun w sink same => blind w sink (Prod.mk.inj same).1

section

variable {τ υ : Type} {part : Writing → τ}

theorem ofSink_keeps {look : Sink → υ} (blind : Blind look part) {α : Type} {m : SinkM α}
    (h : Keeps look m) : Keeps part (ofSink m) :=
  fun w => blind w _ (h w.sink)

theorem applySizes_keeps {p : WrittenSheet → υ} (unsized : SinkM.Unsized p)
    (blind : Blind (Sink.parts p) part) (out : List (Location × CellStyle)) :
    Keeps part (do
      for (col, width) in largestSizes (out.filterMap fun (l, style) =>
          style.colWidth.map (l.col, ·)) do
        ofSink (SinkM.setColumnWidth handle col width)
      for (row, height) in largestSizes (out.filterMap fun (l, style) =>
          style.rowHeight.map (l.row, ·)) do
        ofSink (SinkM.setRowHeight handle row height)
      if out.any fun (_, style) => style.autofit == some true then
        ofSink (SinkM.autofit handle)
      return out.length) := by
  refine (Keeps.forIn (fun c _ => ?_) _).bind fun _ => (Keeps.forIn (fun c _ => ?_) _).bind fun _ => ?_
  · exact (ofSink_keeps blind (SinkM.setColumnWidth_keeps unsized _ _)).bind fun _ => .pure _
  · exact (ofSink_keeps blind (SinkM.setRowHeight_keeps unsized _ _)).bind fun _ => .pure _
  · exact .ite ((ofSink_keeps blind (SinkM.autofit_keeps unsized)).bind fun _ => .pure _) (.pure _)

end

section

variable {τ υ : Type} {part : Writing → τ} {p : WrittenSheet → υ} (blind : Blind (Sink.parts p) part)
  (unwritten : ∀ s writes, p { s with writes } = p s)
  (mark : ∀ c, Keeps part (ofBuild (BuildM.markWritten c)))
  (finish : ∀ c, Keeps part (ofBuild (BuildM.finishFormula sheet c)))

include blind unwritten mark finish

theorem writeLeaf_keeps (c : CellId) : Keeps part (writeLeaf handle sheet c) := by
  refine Keeps.get.bind fun w => ?_
  split
  case h_1 => exact .pure _
  case h_2 =>
    refine (mark c).bind fun _ => (finish c).bind fun _ => Keeps.get.bind fun _ => .ite ?_ ?_
    · exact (ofSink_keeps blind ((SinkM.checkCell_keeps _).bind fun _ =>
        (SinkM.checkCell_keeps _).bind fun _ => SinkM.onSheet_keeps fun s => unwritten s _)).bind
          fun _ => .pure _
    · exact (ofSink_keeps blind ((SinkM.checkCell_keeps _).bind fun _ =>
        SinkM.onSheet_keeps fun s => unwritten s _)).bind fun _ => .pure _

theorem writeCells_keeps (unsized : SinkM.Unsized p) (root : Element) :
    Keeps part (writeCells root handle sheet) :=
  Keeps.get.bind fun _ => (Keeps.mapM (writeLeaf_keeps blind unwritten mark finish) _).bind fun _ =>
    applySizes_keeps unsized blind _

end

theorem unsized_log : SinkM.Unsized fun s => (s.name, s.writes) :=
  fun _ _ _ _ => rfl

theorem writeCells_written {root : Element} (wf : w.build.store.WellFormed)
    (hroot : w.build.store.InStore root)
    (placed : ∀ c ∈ w.build.store.leaves root, (w.build.store.cell c).location.isSome) {count : Nat}
    (h : Runs (writeCells root handle sheet) w count w') :
    Inks (w.build.store.leaves root) w.build.store w'.build.store ∧ ∃ entries,
      List.Forall₂ (Written w'.build.store sheet) (w.build.store.leaves root) entries ∧
        w'.sink.log = w.sink.log.modify handle fun p => (p.1, entries.reverse ++ p.2) := by
  have held : ∀ c ∈ w.build.store.leaves root, w.build.store.InStore (.cell c) := fun c hc =>
    wf.inStore_of_reach hroot (wf.acyclic.mem_leaves.1 hc)
  obtain ⟨_, _, got, h⟩ := runs_bind.1 h
  obtain ⟨rfl, rfl⟩ := runs_get.1 got
  obtain ⟨out, m, cells, h⟩ := runs_bind.1 h
  have same := (applySizes_keeps unsized_log blind_cellPart.parts (out.filterMap id)).of_runs h
  obtain ⟨stored, logged⟩ := Prod.mk.inj same
  rw [stored, logged]
  exact writeLeaves_written wf held placed cells

/-! ## Tables -/

section

variable {τ : Type} {part : Writing → τ} (blind : Blind Sink.log part)

include blind

theorem defineWithin_keeps (spec : TableSpec) (base : String) (attempts tried : Nat)
    (last : SheetError) : Keeps part (defineWithin handle spec base attempts tried last) := by
  induction attempts generalizing tried last with
  | zero => exact .throw _
  | succ attempts ih =>
      refine Keeps.get_bind fun w => ?_
      generalize (if tried = 0 then base else base ++ "_" ++ Number.natText (tried + 1)) = name
      have same := SinkM.defineTable_keeps handle { spec with name } w.sink
      generalize run : (SinkM.defineTable handle { spec with name }).run w.sink = out
      rw [show SinkM.defineTable handle { spec with name } w.sink = out from run] at same
      obtain ⟨r, sink⟩ := out
      have kept : part { w with sink } = part w := blind w sink same
      cases r with
      | ok _ => exact kept
      | error e =>
          cases e with
          | duplicateTableName taken => exact (ih _ _ { w with sink }).trans kept
          | _ => exact kept

theorem defineTable_keeps (defaults : TableOptions) (attempts : Nat) (f : FrameId)
    (options : TableOptions) :
    Keeps part (defineTable handle sheet defaults attempts f options) := by
  refine Keeps.get.bind fun w => ?_
  dsimp only
  split
  · exact .pure _
  · exact (defineWithin_keeps blind _ _ _ _ _).bind fun _ => .pure _

theorem defineTables_keeps (root : Element) (defaults : TableOptions) (attempts : Nat) :
    Keeps part (defineTables root handle sheet defaults attempts) :=
  Keeps.get.bind fun _ =>
    (Keeps.mapM (fun _ => defineTable_keeps blind _ _ _ _) _).bind fun _ => .pure _

end

end WriteM

end Spreadsheet
