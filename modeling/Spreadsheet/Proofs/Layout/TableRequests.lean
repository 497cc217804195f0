import Spreadsheet.Proofs.Layout.TableNames

/-!
# Requests for tables

A table that is asked for under a name is defined under that name or, if another table has it, under
the name with the first number from two on that is free.  A request gives up after as many names as it
allows, and then the sink is as it was.
-/

namespace Spreadsheet

open Store

/-! ## A table in a sink -/

/-- A sink with one more table on a sheet, whose name is taken. -/
def Sink.record (sink : Sink) (handle : Nat) (table : TableSpec) : Sink :=
  { sink with
    tableNames := Text.lowercase table.name :: sink.tableNames
    sheets := sink.sheets.modify handle fun s => { s with tables := s.tables ++ [table] } }

namespace Sink

variable {sink : Sink} {handle : Nat}

/-- Whether the names that are taken are those of the tables. -/
def TakesTables (sink : Sink) : Prop :=
  sink.tableNames.Perm sink.tableKeys

theorem length_sheets_record (handle : Nat) (table : TableSpec) :
    (sink.record handle table).sheets.length = sink.sheets.length :=
  List.length_modify _ _ _

theorem TakesTables.record (takes : sink.TakesTables) (there : handle < sink.sheets.length)
    (table : TableSpec) : (sink.record handle table).TakesTables :=
  (takes.cons _).trans (tableKeys_modify there table).symm

end Sink

namespace SinkM

variable {sink : Sink} {handle : Nat} (table : TableSpec)

/-- A table whose name is taken is refused by every sink, which stays as it is. -/
theorem defineTable_of_taken (taken : Text.lowercase table.name ∈ sink.tableNames) :
    (defineTable handle table).run sink = (.error (.duplicateTableName table.name), sink) := by
  show (ite (sink.tableNames.contains (Text.lowercase table.name) = true) _ _ : SinkM Unit) sink = _
  rw [if_pos (List.contains_iff_mem.2 taken)]
  rfl

/-- A sink in memory records a table whose name is free. -/
theorem defineTable_of_free (memory : sink.medium = .memory) (there : handle < sink.sheets.length)
    (free : Text.lowercase table.name ∉ sink.tableNames) :
    (defineTable handle table).run sink = (.ok (), sink.record handle table) := by
  have added : (onSheet handle (fun s => { s with tables := s.tables ++ [table] })
      { sink with tableNames := Text.lowercase table.name :: sink.tableNames } :
        Except SheetError Unit × Sink) = (.ok (), sink.record handle table) := by
    rw [onSheet_apply, if_pos there]
    rfl
  rw [← added]
  show (ite (sink.tableNames.contains (Text.lowercase table.name) = true) _ _ : SinkM Unit) sink = _
  rw [if_neg (mt List.contains_iff_mem.1 free)]
  obtain ⟨medium, _⟩ := sink
  obtain rfl : medium = .memory := memory
  rfl

end SinkM

/-! ## One request -/

/-- A table that is asked for on a sheet, with the name to try first and the number of names to try. -/
structure TableRequest where
  handle : Nat
  spec : TableSpec
  base : String
  attempts : Nat

namespace TableRequest

variable {q : TableRequest} {sink sink' : Sink} {w : Writing} {r : Except SheetError Unit} {n : Nat}

/-- How many names are tried: one at least. -/
def limit (q : TableRequest) : Nat :=
  max q.attempts 1

/-- The `n`-th name that is tried, counted from one. -/
def name (q : TableRequest) (n : Nat) : String :=
  if n ≤ 1 then q.base else q.base ++ "_" ++ Number.natText n

/-- The table under the `n`-th name. -/
def candidate (q : TableRequest) (n : Nat) : TableSpec :=
  { q.spec with name := q.name n }

/-- Whether the `n`-th name is taken, whatever its case. -/
def Taken (q : TableRequest) (sink : Sink) (n : Nat) : Prop :=
  Text.lowercase (q.name n) ∈ sink.tableNames

instance (q : TableRequest) (sink : Sink) : DecidablePred (q.Taken sink) := fun n =>
  inferInstanceAs (Decidable (Text.lowercase (q.name n) ∈ sink.tableNames))

/-- Try the names from the one after `tried` on, `attempts` of them. -/
def defineFrom (q : TableRequest) (attempts tried : Nat) : WriteM Unit :=
  WriteM.defineWithin q.handle q.spec q.base attempts tried (.duplicateTableName (q.name tried))

/-- Define the table under one of its names, as the layout does for a frame. -/
def define (q : TableRequest) : WriteM Unit :=
  WriteM.defineWithin q.handle q.spec q.base q.limit 0 (.duplicateTableName q.base)

/-- The error of a request whose names are all taken. -/
def collision (q : TableRequest) : SheetError :=
  .tableNameCollision q.base q.limit (.duplicateTableName (q.name q.limit))

theorem define_eq (q : TableRequest) : q.define = q.defineFrom q.limit 0 := rfl

theorem name_succ (q : TableRequest) (tried : Nat) :
    (if tried = 0 then q.base else q.base ++ "_" ++ Number.natText (tried + 1)) =
      q.name (tried + 1) :=
  if_congr (by omega) rfl rfl

/-- What a sink says of the next name: only that it is taken is no answer to the request. -/
theorem defineFrom_succ (q : TableRequest) (attempts tried : Nat) (w : Writing) :
    (q.defineFrom (attempts + 1) tried).run w =
      match (SinkM.defineTable q.handle (q.candidate (tried + 1))).run w.sink with
      | (.ok (), sink) => (.ok (), { w with sink })
      | (.error (.duplicateTableName taken), sink) =>
        (WriteM.defineWithin q.handle q.spec q.base attempts (tried + 1)
          (.duplicateTableName taken)).run { w with sink }
      | (.error other, sink) => (.error other, { w with sink }) := by
  rw [candidate, ← name_succ]
  show (match (SinkM.defineTable q.handle { q.spec with name := _ }).run w.sink with
    | (.ok (), sink) => set { w with sink }
    | (.error (.duplicateTableName taken), sink) => do
      set { w with sink }
      WriteM.defineWithin q.handle q.spec q.base attempts (tried + 1) (.duplicateTableName taken)
    | (.error other, sink) => do
      set { w with sink }
      throw other : WriteM Unit) w = _
  generalize (SinkM.defineTable q.handle _).run w.sink = out
  obtain ⟨e | _, sink⟩ := out
  · cases e <;> rfl
  · rfl

/-- A name that is taken is passed over. -/
theorem defineFrom_of_taken (attempts : Nat) {tried : Nat} (taken : q.Taken w.sink (tried + 1)) :
    (q.defineFrom (attempts + 1) tried).run w = (q.defineFrom attempts (tried + 1)).run w := by
  rw [defineFrom_succ, SinkM.defineTable_of_taken (q.candidate (tried + 1)) taken]
  rfl

/-- What a sink says of a name other than that it is taken is the answer. -/
theorem defineFrom_of_answer (attempts : Nat) {tried : Nat}
    (answer : (SinkM.defineTable q.handle (q.candidate (tried + 1))).run w.sink = (r, sink'))
    (other : ∀ name, r ≠ .error (.duplicateTableName name)) :
    (q.defineFrom (attempts + 1) tried).run w = (r, { w with sink := sink' }) := by
  rw [defineFrom_succ, answer]
  split
  case h_1 same => cases same; rfl
  case h_2 same => cases same; exact absurd rfl (other _)
  case h_3 same => cases same; rfl

/-- Names that are taken are passed over, however many they are. -/
theorem defineFrom_of_taken_upTo (attempts : Nat)
    (taken : ∀ m, 1 ≤ m → m ≤ n → q.Taken w.sink m) :
    (q.defineFrom (attempts + n) 0).run w = (q.defineFrom attempts n).run w := by
  induction n generalizing attempts with
  | zero => rfl
  | succ n ih =>
      rw [← Nat.succ_add_eq_add_succ, ih (attempts + 1) fun m low high => taken m low (by omega)]
      exact defineFrom_of_taken attempts (taken (n + 1) (by omega) (Nat.le_refl _))

/-- The first answer that is not that a name is taken ends a request. -/
theorem define_of_answer (low : 1 ≤ n) (high : n ≤ q.limit)
    (before : ∀ m, 1 ≤ m → m < n → q.Taken w.sink m)
    (answer : (SinkM.defineTable q.handle (q.candidate n)).run w.sink = (r, sink'))
    (other : ∀ name, r ≠ .error (.duplicateTableName name)) :
    q.define.run w = (r, { w with sink := sink' }) := by
  obtain ⟨tried, rfl⟩ := Nat.exists_eq_add_of_le' low
  obtain ⟨left, count⟩ := Nat.exists_eq_add_of_le' high
  have passed : ∀ m, 1 ≤ m → m ≤ tried → q.Taken w.sink m := fun m low high =>
    before m low (by omega)
  calc q.define.run w
    _ = (q.defineFrom (left + 1 + tried) 0).run w := by
      rw [define_eq, count, Nat.succ_add_eq_add_succ]
    _ = (q.defineFrom (left + 1) tried).run w := defineFrom_of_taken_upTo (left + 1) passed
    _ = (r, { w with sink := sink' }) := defineFrom_of_answer left answer other

/-- If all names are taken, a request leaves everything as it is. -/
theorem define_of_taken (taken : ∀ n, 1 ≤ n → n ≤ q.limit → q.Taken w.sink n) :
    q.define.run w = (.error q.collision, w) := by
  calc q.define.run w
    _ = (q.defineFrom (0 + q.limit) 0).run w := by rw [define_eq, Nat.zero_add]
    _ = (q.defineFrom 0 q.limit).run w := defineFrom_of_taken_upTo 0 taken
    _ = (.error q.collision, w) := rfl

/-- The number of the first name that is free. -/
structure FirstFree (q : TableRequest) (sink : Sink) (n : Nat) : Prop where
  low : 1 ≤ n
  high : n ≤ q.limit
  free : ¬q.Taken sink n
  before : ∀ m, 1 ≤ m → m < n → q.Taken sink m

theorem exists_firstFree (free : ∃ n, 1 ≤ n ∧ n ≤ q.limit ∧ ¬q.Taken sink n) :
    ∃ n, q.FirstFree sink n := by
  obtain ⟨low, high, least⟩ := Nat.find_spec free
  refine ⟨Nat.find free, low, high, least, fun m one below => ?_⟩
  exact not_not.1 fun unused =>
    Nat.find_min free below ⟨one, (Nat.le_of_lt below).trans high, unused⟩

/-- What a sink in memory answers to a request, and what it is afterwards. -/
structure Answered (q : TableRequest) (sink : Sink) (r : Except SheetError Unit) (sink' : Sink) :
    Prop where
  /-- A request succeeds if one of its names is free, and only then. -/
  succeeds : r = .ok () ↔ ∃ n, 1 ≤ n ∧ n ≤ q.limit ∧ ¬q.Taken sink n
  /-- Its table is recorded then under the first name that is free. -/
  recorded : r = .ok () → ∃ n, q.FirstFree sink n ∧ sink' = sink.record q.handle (q.candidate n)
  /-- Otherwise its names collide, and the sink stays as it is. -/
  refused : r ≠ .ok () → r = .error q.collision ∧ sink' = sink

/-- A sink in memory answers every request for a table on a sheet that it has. -/
theorem define_answered (memory : w.sink.medium = .memory)
    (there : q.handle < w.sink.sheets.length) :
    q.Answered w.sink (q.define.run w).1 (q.define.run w).2.sink := by
  by_cases free : ∃ n, 1 ≤ n ∧ n ≤ q.limit ∧ ¬q.Taken w.sink n
  · obtain ⟨n, first⟩ := exists_firstFree free
    have answer := SinkM.defineTable_of_free (q.candidate n) memory there first.free
    rw [define_of_answer first.low first.high first.before answer (by simp)]
    exact ⟨iff_of_true rfl free, fun _ => ⟨n, first, rfl⟩, fun failed => absurd rfl failed⟩
  · have taken : ∀ n, 1 ≤ n → n ≤ q.limit → q.Taken w.sink n := fun n low high =>
      not_not.1 fun unused => free ⟨n, low, high, unused⟩
    rw [define_of_taken taken]
    exact ⟨iff_of_false (by simp) free, fun ok => (by cases ok), fun _ => ⟨rfl, rfl⟩⟩

/-- What an answered request keeps of a sink: its kind, its sheets, and that tables alone take names. -/
theorem Answered.keeps (h : q.Answered sink r sink') :
    sink'.medium = sink.medium ∧ sink'.sheets.length = sink.sheets.length ∧
      (q.handle < sink.sheets.length → sink.TakesTables → sink'.TakesTables) := by
  by_cases ok : r = .ok ()
  · obtain ⟨n, -, rfl⟩ := h.recorded ok
    exact ⟨rfl, sink.length_sheets_record _ _, fun there takes => takes.record there _⟩
  · obtain ⟨-, rfl⟩ := h.refused ok
    exact ⟨rfl, rfl, fun _ takes => takes⟩

/-! ## One request after the other -/

/-- Ask for tables one after the other, whatever is answered. -/
def defineAll : List TableRequest → Writing → List (Except SheetError Unit) × Writing
  | [], w => ([], w)
  | q :: rest, w =>
    let (r, w) := q.define.run w
    let (answers, w) := defineAll rest w
    (r :: answers, w)

/-- Every request is answered by the sink that the requests before it leave. -/
inductive AnsweredAll : List TableRequest → Sink → List (Except SheetError Unit) → Sink → Prop
  | nil {sink : Sink} : AnsweredAll [] sink [] sink
  | cons {q : TableRequest} {rest : List TableRequest} {r : Except SheetError Unit}
      {answers : List (Except SheetError Unit)} {sink next last : Sink}
      (first : q.Answered sink r next) (others : AnsweredAll rest next answers last) :
      AnsweredAll (q :: rest) sink (r :: answers) last

theorem defineAll_answeredAll (requests : List TableRequest) (memory : w.sink.medium = .memory)
    (there : ∀ q ∈ requests, q.handle < w.sink.sheets.length) :
    AnsweredAll requests w.sink (defineAll requests w).1 (defineAll requests w).2.sink ∧
      (w.sink.TakesTables → (defineAll requests w).2.sink.TakesTables) := by
  induction requests generalizing w with
  | nil => exact ⟨.nil, id⟩
  | cons q rest ih =>
      have here := there q (by simp)
      have first := define_answered memory here
      obtain ⟨medium, sheets, takes⟩ := first.keeps
      obtain ⟨others, takes'⟩ := ih (medium.trans memory) fun p hp =>
        sheets ▸ there p (List.mem_cons_of_mem q hp)
      exact ⟨.cons first others, fun h => takes' (takes here h)⟩

/-- Requests to a sink in memory, one after the other, each define their table under the first of their
names that no table has, or are refused and leave the sink as it is.  In every sink, what it says of a
name other than that it is taken is what the request is answered. -/
theorem defineAll_firstFree (requests : List TableRequest) (memory : w.sink.medium = .memory)
    (there : ∀ q ∈ requests, q.handle < w.sink.sheets.length) :
    AnsweredAll requests w.sink (defineAll requests w).1 (defineAll requests w).2.sink ∧
      (w.sink.TakesTables → (defineAll requests w).2.sink.TakesTables) ∧
      ∀ (q : TableRequest) (w : Writing) (n : Nat) (e : SheetError) (sink' : Sink),
        1 ≤ n → n ≤ q.limit → (∀ m, 1 ≤ m → m < n → q.Taken w.sink m) →
        (SinkM.defineTable q.handle (q.candidate n)).run w.sink = (.error e, sink') →
        (∀ name, e ≠ .duplicateTableName name) →
        q.define.run w = (.error e, { w with sink := sink' }) := by
  obtain ⟨answered, takes⟩ := defineAll_answeredAll requests memory there
  refine ⟨answered, takes, fun q w n e sink' low high before answer other => ?_⟩
  exact define_of_answer low high before answer fun name same => other name (by cases same; rfl)

/-- Two sheets in memory. -/
def twoSheets : Writing where
  build := {}
  sink := { sheets := [{ name := "A" }, { name := "B" }] }

/-- A request for a table of one cell. -/
def ofCell (handle : Nat) (base : String) (attempts : Nat) : TableRequest where
  handle
  spec := ⟨⟨⟨0, 0⟩, ⟨0, 0⟩⟩, base, {}, []⟩
  base
  attempts

/-- Requests on two sheets for one name but for the case, and for a name that another request is given. -/
def rivals : List TableRequest :=
  [ofCell 0 "T" 1, ofCell 1 "t" 2, ofCell 0 "T_2" 3, ofCell 1 "t" 2, ofCell 0 "t" 0]

theorem defineAll_rivals :
    AnsweredAll rivals twoSheets.sink (defineAll rivals twoSheets).1
        (defineAll rivals twoSheets).2.sink ∧
      (defineAll rivals twoSheets).2.sink.TakesTables ∧
      ((ofCell 2 "T" 3).define.run (defineAll rivals twoSheets).2).1 =
        .error (.invalidSheetName "#2") := by
  obtain ⟨answered, takes, atOnce⟩ := defineAll_firstFree rivals (w := twoSheets) rfl (by decide)
  have third := atOnce (ofCell 2 "T" 3) (defineAll rivals twoSheets).2 3
    (.invalidSheetName "#2") _ (by decide) (by decide)
    (fun m low high => by
      obtain rfl | rfl : m = 1 ∨ m = 2 := by omega
      · decide +kernel
      · decide +kernel)
    rfl (by simp)
  exact ⟨answered, takes (.refl _), by rw [third]⟩

example : (defineAll rivals twoSheets).2.sink.sheets.map (·.tables.map (·.name)) =
    [["T", "T_2_2"], ["t_2"]] := by
  decide +kernel

end TableRequest

end Spreadsheet
