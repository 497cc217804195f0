import Spreadsheet.Proofs.Layout.Write

/-!
# Tables in a sink

The tables of a sheet are its frames that are marked as tables and cover a block.  Each of them is
defined once, in order, under the first name that is free; a name that is taken leaves the sink as it
is.
-/

namespace Spreadsheet

open Store

variable {s : Store} {w w' : Writing} {handle : Nat} {sheet : String} {defaults : TableOptions}
  {attempts : Nat}

/-- The tables of each sheet of a sink. -/
def Sink.tables (sink : Sink) : List (List TableSpec) :=
  sink.sheets.map (·.tables)

/-! ## One table -/

namespace SinkM

theorem onSheet_commits {τ : Type} {p : WrittenSheet → τ} {f : WrittenSheet → WrittenSheet}
    {g : τ → τ} (h : ∀ s, p (f s) = g (p s)) :
    Commits (fun sink => sink.sheets.map p) (List.modify · handle g) (onSheet handle f) := by
  intro sink
  rw [onSheet_apply]
  split
  · exact ⟨fun _ _ => map_modify h _ _, fun _ failed => (by cases failed)⟩
  · exact ⟨fun _ ok => (by cases ok), fun _ _ => rfl⟩

/-- A table that is defined is added to its sheet, and one that is refused is not. -/
theorem defineTable_commits (handle : Nat) (table : TableSpec) :
    Commits Sink.tables (List.modify · handle (· ++ [table])) (defineTable handle table) := by
  have add : Commits Sink.tables (List.modify · handle (· ++ [table]))
      (onSheet handle fun s => { s with tables := s.tables ++ [table] }) :=
    onSheet_commits fun _ => rfl
  have take : ∀ key, Keeps Sink.tables (takeTableName key) := fun key => .modify fun _ => rfl
  have style : Keeps Sink.tables (checkTableStyle table.options) := by
    unfold checkTableStyle
    split
    · exact .ite (.modify fun _ => rfl) (.pure _)
    · exact .pure _
  unfold defineTable
  refine Keeps.get.commits fun _ => .ite (.throw_bind _ _) (Keeps.get.commits fun sink => ?_)
  split
  case h_1 => exact (take _).commits fun _ => add
  case h_2 =>
    refine (checkCell_keeps _).commits fun _ => (checkCell_keeps _).commits fun _ => ?_
    exact style.commits fun _ => add.modify fun _ => rfl

end SinkM

/-! ## The tables of a sheet -/

namespace Store

/-- The frame that an element is, if it makes a table. -/
def tableFrame? (s : Store) : Element → Option FrameId
  | .frame f => if (s.frame f).table.isSome ∧ (s.frameRange? true f).isSome then some f else none
  | _ => none

/-- The frames under an element that make tables, in order. -/
def tableFrames (s : Store) (root : Element) : List FrameId :=
  (s.subtree root).filterMap s.tableFrame?

/-- Whether a table is that of a frame: it is defined over the block of the frame, and its headers are
those of the vectors, a vector without a header counting as one with an empty header. -/
def Specified (s : Store) (f : FrameId) (table : TableSpec) : Prop :=
  ∃ first last, s.frameRange? true f = some (first, last) ∧
    table.block = ⟨⟨first.row, first.col⟩, ⟨last.row, last.col⟩⟩ ∧
    table.headers = (s.frameVectors f).map fun v => (s.vector v).header.getD ""

/-- Frames that cover no block make no table. -/
theorem filter_tables {pick : Element → Option (FrameId × TableOptions)}
    (frame : ∀ f, pick (.frame f) = (s.frame f).table.map (f, ·))
    (other : ∀ e, (∀ f, e ≠ .frame f) → pick e = none) (l : List Element) :
    ((l.filterMap pick).map (·.1)).filter (fun f => (s.frameRange? true f).isSome) =
      l.filterMap s.tableFrame? := by
  induction l with
  | nil => rfl
  | cons e l ih =>
      by_cases here : ∃ f, e = .frame f
      · obtain ⟨f, rfl⟩ := here
        cases table : (s.frame f).table with
        | none =>
            have picked : pick (.frame f) = none := by rw [frame, table]; rfl
            have skipped : s.tableFrame? (.frame f) = none := by simp [tableFrame?, table]
            rw [List.filterMap_cons_none picked, List.filterMap_cons_none skipped, ih]
        | some options =>
            have picked : pick (.frame f) = some (f, options) := by rw [frame, table]; rfl
            rw [List.filterMap_cons_some picked, List.map_cons, List.filter_cons, ih]
            by_cases range : (s.frameRange? true f).isSome = true
            · have kept : s.tableFrame? (.frame f) = some f := by simp [tableFrame?, table, range]
              rw [List.filterMap_cons_some kept, if_pos range]
            · have skipped : s.tableFrame? (.frame f) = none := by simp [tableFrame?, range]
              rw [List.filterMap_cons_none skipped, if_neg range]
      · have apart : ∀ f, e ≠ .frame f := fun f same => here ⟨f, same⟩
        have skipped : s.tableFrame? e = none := by
          cases e with
          | frame f => exact absurd rfl (apart f)
          | _ => rfl
        rw [List.filterMap_cons_none (other e apart), List.filterMap_cons_none skipped, ih]

end Store

namespace WriteM

/-- A name that is found for a table is found for it alone: the names tried before leave nothing. -/
theorem tables_of_defineWithin {spec : TableSpec} {base : String} {tried : Nat} {last : SheetError}
    {r : Unit} (run : Runs (defineWithin handle spec base attempts tried last) w r w') :
    ∃ name, w'.sink.tables =
      w.sink.tables.modify handle (· ++ [{ spec with name }]) := by
  induction attempts generalizing w tried last with
  | zero => exact absurd run not_runs_throw
  | succ attempts ih =>
      simp only [defineWithin] at run
      generalize (if tried = 0 then base else base ++ "_" ++ Number.natText (tried + 1)) = name at run
      obtain ⟨_, _, got, run⟩ := runs_bind.1 run
      obtain ⟨rfl, rfl⟩ := runs_get.1 got
      have commits := SinkM.defineTable_commits handle { spec with name } w.sink
      generalize defined : (SinkM.defineTable handle { spec with name }).run w.sink = out at run
      rw [show SinkM.defineTable handle { spec with name } w.sink = out from defined] at commits
      obtain ⟨result, sink⟩ := out
      cases result with
      | ok _ =>
          obtain rfl := runs_set.1 run
          exact ⟨name, commits.1 _ rfl⟩
      | error e =>
          have same : sink.tables = w.sink.tables := commits.2 e rfl
          cases e with
          | duplicateTableName taken =>
              obtain ⟨_, m, put, run⟩ := runs_bind.1 run
              obtain rfl := runs_set.1 put
              obtain ⟨name', tables⟩ := ih run
              exact ⟨name', tables.trans (congrArg _ same)⟩
          | _ =>
              obtain ⟨_, m, put, run⟩ := runs_bind.1 run
              exact absurd run not_runs_throw

/-- A frame that covers a block is defined as a table, and no other frame is. -/
theorem tables_of_defineTable {f : FrameId} {options : TableOptions} {r : Bool}
    (run : Runs (defineTable handle sheet defaults attempts f options) w r w') :
    ∃ specs, List.Forall₂ w.build.store.Specified
        ([f].filter fun f => (w.build.store.frameRange? true f).isSome) specs ∧
      w'.sink.tables = w.sink.tables.modify handle (· ++ specs) := by
  obtain ⟨_, _, got, run⟩ := runs_bind.1 run
  obtain ⟨rfl, rfl⟩ := runs_get.1 got
  dsimp only at run
  split at run
  case h_1 range =>
    obtain ⟨-, rfl⟩ := runs_pure.1 run
    refine ⟨[], by simp [range], ?_⟩
    simp only [List.append_nil]
    exact (List.modify_id _ _).symm
  case h_2 first last range =>
    obtain ⟨_, m, defined, run⟩ := runs_bind.1 run
    obtain ⟨-, rfl⟩ := runs_pure.1 run
    obtain ⟨name, tables⟩ := tables_of_defineWithin defined
    refine ⟨_, ?_, tables⟩
    rw [List.filter_cons_of_pos (by simp [range])]
    exact .cons ⟨first, last, range, rfl, rfl⟩ .nil

theorem store_of_defineTable {f : FrameId} {options : TableOptions} {r : Bool}
    (run : Runs (defineTable handle sheet defaults attempts f options) w r w') :
    w'.build.store = w.build.store :=
  (Prod.mk.inj ((defineTable_keeps blind_cellPart defaults attempts f options).of_runs run)).1

theorem tables_of_mapM {l : List (FrameId × TableOptions)} {out : List Bool}
    (run : Runs (l.mapM fun entry => defineTable handle sheet defaults attempts entry.1 entry.2)
      w out w') : ∃ specs, List.Forall₂ w.build.store.Specified
        ((l.map (·.1)).filter fun f => (w.build.store.frameRange? true f).isSome) specs ∧
      w'.sink.tables = w.sink.tables.modify handle (· ++ specs) := by
  induction l generalizing w out with
  | nil =>
      obtain ⟨-, rfl⟩ := runs_pure.1 run
      refine ⟨[], .nil, ?_⟩
      simp only [List.append_nil]
      exact (List.modify_id _ _).symm
  | cons entry rest ih =>
      rw [List.mapM_cons] at run
      obtain ⟨_, m, first, run⟩ := runs_bind.1 run
      obtain ⟨_, m', others, run⟩ := runs_bind.1 run
      obtain ⟨-, rfl⟩ := runs_pure.1 run
      obtain ⟨here, each, tables⟩ := tables_of_defineTable first
      obtain ⟨later, each', tables'⟩ := ih others
      rw [store_of_defineTable first] at each'
      refine ⟨here ++ later, ?_, ?_⟩
      · rw [List.map_cons, ← List.singleton_append, List.filter_append]
        exact List.rel_append each each'
      · rw [tables', tables, List.modify_modify_eq]
        congr 1
        funext l
        simp

/-- Every frame under an element that makes a table is defined as one, in order. -/
theorem tables_of_defineTables {root : Element} {count : Nat}
    (run : Runs (defineTables root handle sheet defaults attempts) w count w') :
    ∃ specs, List.Forall₂ w.build.store.Specified (w.build.store.tableFrames root) specs ∧
      w'.sink.tables = w.sink.tables.modify handle (· ++ specs) := by
  obtain ⟨_, _, got, run⟩ := runs_bind.1 run
  obtain ⟨rfl, rfl⟩ := runs_get.1 got
  obtain ⟨out, m, defined, run⟩ := runs_bind.1 run
  obtain ⟨-, rfl⟩ := runs_pure.1 run
  obtain ⟨specs, each, tables⟩ := tables_of_mapM defined
  rw [filter_tables (fun _ => rfl) fun e apart => ?other] at each
  case other =>
    cases e with
    | frame f => exact absurd rfl (apart f)
    | _ => rfl
  exact ⟨specs, each, tables⟩

end WriteM

end Spreadsheet
