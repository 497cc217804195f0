import Spreadsheet.Workbook
import Spreadsheet.Proofs.Monad

/-!
# Steps of a build

What the basic operations of a build do to its store, and how operations of a build and of a sink run
as a part of writing.
-/

namespace Spreadsheet

namespace BuildM

variable {α : Type} {b b' : Build} {a : α}

@[simp] theorem runs_changeStore {f : Store → Store} {u : Unit} :
    Runs (changeStore f) b u b' ↔ { b with store := f b.store } = b' :=
  runs_modify

theorem runs_liftStore {m : StoreM α} :
    Runs (liftStore m) b a b' ↔ ∃ t, Leads m b.store a t ∧ b' = { b with store := t } := by
  refine runs_modifyGet.trans ?_
  constructor
  · intro h
    obtain ⟨rfl, rfl⟩ := Prod.mk.inj h
    exact ⟨(m b.store).2, rfl, rfl⟩
  · rintro ⟨t, h, rfl⟩
    have run : StateT.run m b.store = (a, t) := h
    simp only [run]

theorem ensures_liftStore {m : StoreM α} {I : Build → Prop} {Q : α → Build → Prop}
    (h : ∀ a t, Leads m b.store a t → I { b with store := t } ∧ Q a { b with store := t }) :
    Ensures (liftStore m) b I Q := by
  have step := h (m b.store).1 (m b.store).2 rfl
  refine ⟨step.1, fun a ha => ?_⟩
  obtain rfl : (m b.store).1 = a := Except.ok.inj ha
  exact step.2

theorem store_of_note {n : Notice} {u : Unit} (h : Runs (note n) b u b') : b'.store = b.store := by
  obtain rfl := runs_modify.1 h
  rfl

theorem store_of_noteAll {notices : List Notice} {u : Unit} (h : Runs (noteAll notices) b u b') :
    b'.store = b.store := by
  induction notices generalizing b with
  | nil => rw [runs_forM_nil.1 h]
  | cons n rest ih =>
      obtain ⟨m, first, rest⟩ := runs_forM_cons.1 h
      exact (ih rest).trans (store_of_note first)

end BuildM

namespace WriteM

variable {α : Type} {w w' : Writing} {a : α}

theorem runs_ofBuild {m : BuildM α} :
    Runs (ofBuild m) w a w' ↔ ∃ b, Runs m w.build a b ∧ w' = { w with build := b } := by
  constructor
  · intro h
    have split := Prod.mk.inj (show ((m w.build).1, { w with build := (m w.build).2 }) =
      ((.ok a, w') : Except SheetError α × Writing) from h)
    exact ⟨(m w.build).2, Prod.ext split.1 rfl, split.2.symm⟩
  · rintro ⟨b, h, rfl⟩
    have run : (m w.build : Except SheetError α × Build) = (.ok a, b) := h
    show ((m w.build).1, { w with build := (m w.build).2 }) = _
    rw [run]

theorem runs_ofSink {m : SinkM α} :
    Runs (ofSink m) w a w' ↔ ∃ sink, Runs m w.sink a sink ∧ w' = { w with sink } := by
  constructor
  · intro h
    have split := Prod.mk.inj (show ((m w.sink).1, { w with sink := (m w.sink).2 }) =
      ((.ok a, w') : Except SheetError α × Writing) from h)
    exact ⟨(m w.sink).2, Prod.ext split.1 rfl, split.2.symm⟩
  · rintro ⟨sink, h, rfl⟩
    have run : (m w.sink : Except SheetError α × Sink) = (.ok a, sink) := h
    show ((m w.sink).1, { w with sink := (m w.sink).2 }) = _
    rw [run]

end WriteM

end Spreadsheet
