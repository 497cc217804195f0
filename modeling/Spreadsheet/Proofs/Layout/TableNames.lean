import Spreadsheet.Proofs.Layout.TableSpecs

/-!
# The names of tables

A sink knows which names are taken, in lower case, and refuses to define another table under one of
them.  So all tables that it takes differ in their names even when case is ignored, on whichever
sheets they are.
-/

namespace Spreadsheet

open Store

/-! ## Sinks -/

namespace Sink

/-- The names of all tables in lower case. -/
def tableKeys (sink : Sink) : List String :=
  (sink.sheets.flatMap (·.tables)).map fun t => Text.lowercase t.name

/-- Whether all tables have names of their own, which are taken. -/
structure Named (sink : Sink) : Prop where
  distinct : sink.tableKeys.Nodup
  taken : ∀ key ∈ sink.tableKeys, key ∈ sink.tableNames

theorem tableKeys_eq (sink : Sink) :
    sink.tableKeys = sink.tables.flatten.map fun t => Text.lowercase t.name := by
  rw [tableKeys, List.flatMap_def, tables]

theorem tableKeys_modify {sink : Sink} {handle : Nat} (there : handle < sink.sheets.length)
    (table : TableSpec) :
    (tableKeys { sink with sheets := sink.sheets.modify handle fun s =>
      { s with tables := s.tables ++ [table] } }).Perm
        (Text.lowercase table.name :: sink.tableKeys) := by
  obtain ⟨before, s, after, split, -, same⟩ := List.exists_of_modify
    (fun s : WrittenSheet => { s with tables := s.tables ++ [table] }) there
  unfold tableKeys
  dsimp only
  rw [same, split]
  simp only [List.flatMap_append, List.flatMap_cons, List.map_append, List.map_cons,
    List.append_assoc, List.singleton_append]
  simp only [← List.append_assoc]
  exact List.perm_middle

theorem Named.congr {sink sink' : Sink} (named : sink.Named) (tables : sink'.tables = sink.tables)
    (names : sink'.tableNames = sink.tableNames) : sink'.Named := by
  have keys : sink'.tableKeys = sink.tableKeys := by rw [tableKeys_eq, tables, tableKeys_eq]
  exact ⟨keys ▸ named.distinct, by rw [keys, names]; exact named.taken⟩

theorem Named.of_parts {sink sink' : Sink} (same : sink'.parts (·.tables) = sink.parts (·.tables))
    (named : sink.Named) : sink'.Named :=
  named.congr (Prod.mk.inj same).1 (Prod.mk.inj same).2

theorem Named.add {sink sink' : Sink} {key : String} (named : sink.Named)
    (added : sink'.tableKeys.Perm (key :: sink.tableKeys)) (free : key ∉ sink.tableKeys)
    (takes : ∀ k, k = key ∨ k ∈ sink.tableNames → k ∈ sink'.tableNames) : sink'.Named where
  distinct := added.nodup_iff.2 (List.nodup_cons.2 ⟨free, named.distinct⟩)
  taken k hk := takes k ((List.mem_cons.1 (added.subset hk)).imp id (named.taken k))

theorem Named.take {sink : Sink} (named : sink.Named) (key : String) :
    Named { sink with tableNames := key :: sink.tableNames } where
  distinct := named.distinct
  taken k hk := List.mem_cons_of_mem _ (named.taken k hk)

end Sink

namespace SinkM

variable {sink : Sink} {handle : Nat} {table : TableSpec}

/-- A table under a new name is added after its name is taken. -/
theorem named_take_add (named : sink.Named) (free : Text.lowercase table.name ∉ sink.tableNames) :
    Sink.Named ((do
      takeTableName (Text.lowercase table.name)
      onSheet handle fun s => { s with tables := s.tables ++ [table] } : SinkM Unit) sink).2 := by
  show Sink.Named (onSheet handle (fun s => { s with tables := s.tables ++ [table] })
    { sink with tableNames := Text.lowercase table.name :: sink.tableNames }).2
  rw [onSheet_apply]
  split
  case isTrue there =>
    exact named.add (Sink.tableKeys_modify there table) (fun old => free (named.taken _ old))
      fun k hk => List.mem_cons.2 hk
  case isFalse => exact named.take _

/-- A table under a new name is added before its name is taken. -/
theorem named_add_take (named : sink.Named) (free : Text.lowercase table.name ∉ sink.tableNames) :
    Sink.Named ((do
      onSheet handle fun s => { s with tables := s.tables ++ [table] }
      takeTableName (Text.lowercase table.name) : SinkM Unit) sink).2 := by
  rw [bind_apply, onSheet_apply]
  by_cases there : handle < sink.sheets.length
  · rw [if_pos there]
    exact named.add (Sink.tableKeys_modify there table) (fun old => free (named.taken _ old))
      fun k hk => List.mem_cons.2 hk
  · rw [if_neg there]
    exact named

theorem defineTable_named (handle : Nat) (table : TableSpec) :
    Upholds Sink.Named (defineTable handle table) := by
  intro sink named
  suffices done : Ensures (defineTable handle table) sink Sink.Named fun _ _ => True from done.1
  refine Ensures.get_bind (Ensures.ite (fun _ => ⟨named, fun _ _ => trivial⟩) fun unused => ?_)
  have free : Text.lowercase table.name ∉ sink.tableNames := by simpa using unused
  refine Ensures.get_bind ?_
  split
  case h_1 => exact ⟨named_take_add named free, fun _ _ => trivial⟩
  case h_2 =>
    have check : ∀ c, Ensures (checkCell c) sink Sink.Named fun _ t => t = sink := fun c =>
      Keeps.ensures (show Keeps (fun sink => sink) (checkCell c) from checkCell_keeps c)
        fun t same => ⟨same.symm ▸ named, same⟩
    refine (check _).bind fun _ t _ same => ?_
    rw [same]
    refine (check _).bind fun _ t _ same => ?_
    rw [same]
    have style : Keeps (fun sink : Sink => (sink.sheets, sink.tableNames))
        (checkTableStyle table.options) := by
      unfold checkTableStyle
      split
      · exact .ite (.modify fun _ => rfl) (.pure _)
      · exact .pure _
    refine Ensures.bind (style.ensures fun t same => ?_) fun _ t named' free' =>
      ⟨named_add_take named' free', fun _ _ => trivial⟩
    obtain ⟨sheets, names⟩ := Prod.mk.inj same
    exact ⟨named.congr (congrArg (List.map WrittenSheet.tables) sheets) names, names ▸ free⟩

end SinkM

/-! ## Writing -/

namespace WriteM

variable {handle : Nat} {sheet : String}

/-- Whether all tables written so far have names of their own, which are taken. -/
def Named (w : Writing) : Prop :=
  w.sink.Named

theorem defineWithin_named (spec : TableSpec) (base : String) (attempts tried : Nat)
    (last : SheetError) : Upholds Named (defineWithin handle spec base attempts tried last) := by
  induction attempts generalizing tried last with
  | zero => exact fun _ named => named
  | succ attempts ih =>
      refine Upholds.get_bind fun w named => ?_
      generalize (if tried = 0 then base else base ++ "_" ++ Number.natText (tried + 1)) = name
      have kept := SinkM.defineTable_named handle { spec with name } w.sink named
      generalize run : (SinkM.defineTable handle { spec with name }).run w.sink = out
      rw [show SinkM.defineTable handle { spec with name } w.sink = out from run] at kept
      obtain ⟨r, sink⟩ := out
      cases r with
      | ok _ => exact kept
      | error e =>
          cases e with
          | duplicateTableName taken => exact ih _ _ { w with sink } kept
          | _ => exact kept

theorem defineTable_named (defaults : TableOptions) (attempts : Nat) (f : FrameId)
    (options : TableOptions) :
    Upholds Named (defineTable handle sheet defaults attempts f options) := by
  refine Upholds.get.bind fun w => ?_
  dsimp only
  split
  · exact .pure _
  · exact (defineWithin_named _ _ _ _ _).bind fun _ => .pure _

theorem defineTables_named (root : Element) (defaults : TableOptions) (attempts : Nat) :
    Upholds Named (defineTables root handle sheet defaults attempts) :=
  Upholds.get.bind fun _ =>
    (Upholds.mapM (fun _ => defineTable_named _ _ _ _) _).bind fun _ => .pure _

theorem writeCells_named (root : Element) : Upholds Named (writeCells root handle sheet) := by
  have blind : Blind (Sink.parts (·.tables)) fun w => Sink.parts (·.tables) w.sink :=
    fun _ _ same => same
  have cells : Keeps (fun w => Sink.parts (·.tables) w.sink) (writeCells root handle sheet) :=
    writeCells_keeps blind (fun _ _ => rfl) (fun _ _ => rfl) (fun _ _ => rfl) (fun _ _ _ _ => rfl) root
  exact cells.upholds fun _ _ => Sink.Named.of_parts

theorem ofBuild_named {α : Type} (m : BuildM α) : Upholds Named (ofBuild m) :=
  fun _ named => named

theorem ofSink_named {α : Type} {m : SinkM α} (h : Upholds Sink.Named m) :
    Upholds Named (ofSink m) :=
  fun w => h w.sink

end WriteM

namespace Workbook

variable (wb : Workbook)

theorem createSheets_named (position : Nat) (sheets : List (Sheet × String)) :
    Upholds Sink.Named (wb.createSheets position sheets) := by
  have created : ∀ name, Upholds Sink.Named (SinkM.createSheet name) := by
    intro name sink named
    have keys : Sink.tableKeys (SinkM.createSheet name sink : Except SheetError Nat × Sink).2 =
        sink.tableKeys := by
      show Sink.tableKeys { sink with sheets := sink.sheets ++ [_] } = _
      simp [Sink.tableKeys]
    exact ⟨keys ▸ named.distinct, keys ▸ named.taken⟩
  have configured : ∀ handle options, Upholds Sink.Named (SinkM.configure handle options) := by
    intro handle options
    have same : Keeps (Sink.parts (·.tables)) (SinkM.configure handle options) :=
      SinkM.onSheet_keeps fun _ => rfl
    exact same.upholds fun _ _ => .of_parts
  induction sheets generalizing position with
  | nil => exact .pure _
  | cons entry rest ih =>
      exact (created _).bind fun _ => (configured _ _).bind fun _ => (ih _).bind fun _ => .pure _

theorem writeSheet_named (sheet : Sheet) (name : String) (handle : Nat) :
    Upholds WriteM.Named (wb.writeSheet sheet name handle) :=
  (WriteM.writeCells_named _).bind fun _ => Upholds.get.bind fun _ =>
    (WriteM.defineTables_named _ _ _).bind fun _ => WriteM.ofBuild_named _

/-- Whatever is written to a sink whose tables have names of their own, they still do. -/
theorem write_named (path : String) (desktop : Option Desktop) :
    Upholds WriteM.Named (wb.write path desktop) := by
  have onDesktop : ∀ {f : Desktop → BuildM Unit},
      Upholds WriteM.Named (desktop.forM fun d => WriteM.ofBuild (f d)) := by
    intro f
    cases desktop with
    | none => exact .pure _
    | some d => exact WriteM.ofBuild_named _
  have saved : Upholds Sink.Named (SinkM.save path) := by
    have same : Keeps (Sink.parts (·.tables)) (SinkM.save path) :=
      SinkM.save_keeps (fun _ _ => rfl) path
    exact same.upholds fun _ _ => .of_parts
  have built : Upholds WriteM.Named (wb.build path desktop) := by
    apply (WriteM.ofBuild_named _).bind
    intro names
    apply onDesktop.bind
    intro _
    apply (WriteM.ofBuild_named _).bind
    intro _
    apply (Upholds.forM (fun _ => WriteM.ofBuild_named _) _).bind
    intro _
    apply (WriteM.ofSink_named (wb.createSheets_named 0 _)).bind
    intro handles
    apply (Upholds.forM (fun _ => wb.writeSheet_named _ _ _) _).bind
    intro _
    apply (WriteM.ofSink_named saved).bind
    intro _
    exact (WriteM.ofBuild_named _).bind fun _ => onDesktop
  intro w named
  rw [Workbook.write, tryFinally_apply]
  exact built w named

end Workbook

end Spreadsheet
