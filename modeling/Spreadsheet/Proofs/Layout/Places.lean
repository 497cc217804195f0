import Spreadsheet.Proofs.Layout.Book
import Spreadsheet.Proofs.Layout.Gentle

/-!
# What is placed, what is written, and what is a table

New cells are nowhere and not written, and new frames are no tables.  A cell keeps its place until it
is placed anew, and nothing that comes before writing changes whether it is written.  So after a
layout a cell that is not below the root is where it was before, or still nowhere.
-/

namespace Spreadsheet

namespace Store

/-- Where each cell is. -/
def places (s : Store) (c : CellId) : Option Location :=
  (s.cell c).location

/-- Whether each cell is written. -/
def latches (s : Store) (c : CellId) : Bool :=
  (s.cell c).written

/-- How each frame is a table, if it is one. -/
def tableOptions (s : Store) (f : FrameId) : Option TableOptions :=
  (s.frame f).table

/-- Where each cell is and whether it is written, and which frames are tables. -/
def traces (s : Store) : (CellId → Option Location × Bool) × (FrameId → Option TableOptions) :=
  (fun c => (s.places c, s.latches c), s.tableOptions)

/-- Which cells are written, and which frames are tables. -/
def brands (s : Store) : (CellId → Bool) × (FrameId → Option TableOptions) :=
  (s.latches, s.tableOptions)

theorem places_of_traces {s t : Store} (h : t.traces = s.traces) : t.places = s.places :=
  funext fun c => congrArg Prod.fst (congrFun (Prod.mk.inj h).1 c)

theorem latches_of_traces {s t : Store} (h : t.traces = s.traces) : t.latches = s.latches :=
  funext fun c => congrArg Prod.snd (congrFun (Prod.mk.inj h).1 c)

theorem tableOptions_of_traces {s t : Store} (h : t.traces = s.traces) :
    t.tableOptions = s.tableOptions :=
  (Prod.mk.inj h).2

theorem brands_of_traces {s t : Store} (h : t.traces = s.traces) : t.brands = s.brands :=
  Prod.ext (latches_of_traces h) (tableOptions_of_traces h)

theorem traces_addCell (s : Store) {n : CellNode} (none : n.location = none)
    (blank : n.written = false) : (s.addCell n).2.traces = s.traces := by
  refine Prod.ext (funext fun c => ?_) rfl
  simp only [traces, places, latches, cell_addCell_eq]
  split
  case isTrue new =>
    have default : s.cell c = default := get_eq_default new.ge
    rw [none, blank, default]
    rfl
  case isFalse => rfl

theorem traces_addFrame (s : Store) {n : FrameNode} (plain : n.table = none) :
    (s.addFrame n).2.traces = s.traces := by
  refine Prod.ext rfl (funext fun f => ?_)
  simp only [traces, tableOptions, frame_addFrame_eq]
  split
  case isTrue new =>
    have default : s.frame f = default := get_eq_default new.ge
    rw [plain, default]
    rfl
  case isFalse => rfl

theorem latches_updateCell (s : Store) (c : CellId) {f : CellNode → CellNode}
    (same : ∀ n, (f n).written = n.written) : (s.updateCell c f).latches = s.latches := by
  funext d
  unfold latches
  rcases cell_updateCell_cases s c d f with h | h
  · rw [h]
  · rw [h, same]

theorem traces_updateCell (s : Store) (c : CellId) {f : CellNode → CellNode}
    (place : ∀ n, (f n).location = n.location) (latch : ∀ n, (f n).written = n.written) :
    (s.updateCell c f).traces = s.traces := by
  refine Prod.ext (funext fun d => ?_) rfl
  simp only [traces, places, latches]
  rcases cell_updateCell_cases s c d f with h | h
  · rw [h]
  · rw [h, place, latch]

theorem traces_updateFrame (s : Store) (g : FrameId) {f : FrameNode → FrameNode}
    (same : ∀ n, (f n).table = n.table) : (s.updateFrame g f).traces = s.traces := by
  refine Prod.ext rfl (funext fun h => ?_)
  simp only [traces, tableOptions]
  rcases frame_updateFrame_cases s g h f with kept | changed
  · rw [kept]
  · rw [changed, same]

theorem traces_setChildren (s : Store) (e : Element) (l : List Element) :
    (s.setChildren e l).traces = s.traces := by
  cases e with
  | frame f => exact traces_updateFrame s f fun _ => rfl
  | _ => rfl

theorem traces_updateAttributes (s : Store) (e : Element) (f : Attributes → Attributes) :
    (s.updateAttributes e f).traces = s.traces := by
  cases e with
  | frame g => exact traces_updateFrame s g fun _ => rfl
  | _ => rfl

theorem brands_setLocation (s : Store) (e : Element) (l : Location) :
    (s.setLocation e l).brands = s.brands := by
  cases e with
  | cell c => exact Prod.ext (latches_updateCell s c fun _ => rfl) rfl
  | _ => exact brands_of_traces (traces_updateAttributes s _ _)

theorem brands_cascade (s : Store) (e : Element) (outer : Inherited) :
    (s.cascade e outer).brands = s.brands := by
  have chains : Chains fun s t : Store => t.brands = s.brands := chains_part
  refine cascadeWithin_relates chains (fun s c outer => ?_) _ s e outer
  refine Prod.ext (latches_updateCell s c fun n => ?_) rfl
  split <;> rfl

end Store

namespace StoreM

open Store

/-! ## New nodes -/

theorem newCell_retains {n : CellNode} (none : n.location = none) (blank : n.written = false) :
    Retains traces (newCell n) :=
  .modifyGet fun s => traces_addCell s none blank

theorem newVector_retains (n : VectorNode) : Retains traces (newVector n) :=
  .modifyGet fun _ => rfl

theorem newFrame_retains {n : FrameNode} (plain : n.table = none) : Retains traces (newFrame n) :=
  .modifyGet fun s => traces_addFrame s plain

/-! ## Headers and space -/

theorem insertHeaders_retains (root : Element) : Retains traces (insertHeaders root) :=
  insertHeaders_relates chains_part (fun s _ none blank _ => traces_addCell s none blank)
    (fun _ _ _ => rfl) root

/-- Space is made without placing or writing anything. -/
theorem gentle_traces : Gentle fun s t => t.traces = s.traces where
  toChains := chains_part
  cell s _ none _ blank _ := traces_addCell s none blank
  vector _ _ _ _ := rfl
  frame s _ plain _ := traces_addFrame s plain
  stack _ _ := rfl
  attributes s e f := traces_updateAttributes s e f
  children := by
    intro s t e l same _ _
    rw [traces_setChildren, same]

end StoreM

/-! ## Layouts -/

open Store

theorem Store.traces_prepareHeaders (s : Store) (root : Element) :
    (s.prepareHeaders root).traces = s.traces := by
  have chains : Chains fun s t : Store => t.traces = s.traces := chains_part
  exact prepareHeaders_relates chains (fun _ _ _ => rfl) s root

theorem Store.traces_applySizes (s : Store) (root : Element) :
    (s.applySizes root).traces = s.traces := by
  have chains : Chains fun s t : Store => t.traces = s.traces := chains_part
  exact applySizes_relates chains (fun _ _ _ _ => rfl) s root

/-- What no step changes but those that place cells. -/
def Build.placing (b : Build) : Config × (CellId → Option Location) :=
  (b.config, b.store.places)

namespace BuildM

theorem changeStore_keeps {f : Store → Store} (h : ∀ s, (f s).traces = s.traces) :
    Keeps Build.placing (changeStore f) :=
  .modify fun b => Prod.ext rfl (places_of_traces (h b.store))

theorem noteAll_keeps {τ : Type} {part : Build → τ}
    (mute : ∀ b report, part { b with report } = part b) (notices : List Notice) :
    Keeps part (noteAll notices) := by
  have each : ∀ n, Keeps part (note n) := fun n => .modify fun b => mute b _
  exact .forM each notices

theorem liftStore_brands {α : Type} {m : StoreM α} (h : Retains traces m) :
    Keeps (fun b => b.store.brands) (liftStore m) :=
  fun b => brands_of_traces (h b.store)

/-- A layout writes no cell and makes no frame a table. -/
theorem layOut_brands (root : Element) (sheet : String) (outer : Inherited) :
    Keeps (fun b => b.store.brands) (layOut root sheet outer) := by
  have change : ∀ {f : Store → Store}, (∀ s, (f s).brands = s.brands) →
      Keeps (fun b => b.store.brands) (BuildM.changeStore f) := fun same => .modify fun b => same b.store
  apply (change fun s => brands_of_traces (traces_prepareHeaders s root)).bind
  intro _
  apply (liftStore_brands (StoreM.insertHeaders_retains root)).bind
  intro _
  apply (change fun s => brands_of_traces (traces_applySizes s root)).bind
  intro _
  apply (liftStore_brands (StoreM.wrapSpacing_relates StoreM.gentle_traces root)).bind
  intro notices
  apply (noteAll_keeps (fun _ _ => rfl) notices).bind
  intro _
  apply (liftStore_brands (StoreM.explodeGaps_relates StoreM.gentle_traces root)).bind
  intro _
  apply (change fun s => placeWithin_keeps brands_setLocation _ s root _).bind
  intro _
  exact change fun s => brands_cascade s root outer

theorem layOutSheet_brands (wb : Workbook) (sheet : Sheet) (name : String) :
    Keeps (fun b => b.store.brands) (wb.layOutSheet sheet name) := by
  have pushed : ∀ gap, Keeps (fun b => b.store.brands) (push (.stack sheet.root) (.gap gap)) :=
    fun gap => Keeps.get.bind fun _ => .modify fun b => brands_of_traces (traces_setChildren _ _ _)
  exact .ite ((pushed _).bind fun _ => layOut_brands _ _ _) (layOut_brands _ _ _)

/-- A layout places no cell that is not below the root. -/
theorem layOut_places {b b' : Build} {root : Element} {sheet : String} {outer : Inherited} {r : Unit}
    (h : Runs (layOut root sheet outer) b r b') : b'.config = b.config ∧
      ∀ c, b'.store.places c = b.store.places c ∨ Reach b'.store root (.cell c) := by
  simp only [layOut, runs_bind, runs_changeStore, runs_liftStore] at h
  obtain ⟨_, _, rfl, _, _, ⟨s₂, headers, rfl⟩, _, _, rfl, notices, _, ⟨s₄, spacing, rfl⟩, _, b₅,
    report, _, _, ⟨s₅, gaps, rfl⟩, _, _, rfl, rfl⟩ := h
  have noted : Keeps (fun b => (b.config, b.store)) (noteAll notices) :=
    noteAll_keeps (fun _ _ => rfl) notices
  obtain ⟨config, reported⟩ := Prod.mk.inj (noted.of_runs report)
  refine ⟨config, fun c => ?_⟩
  have front : s₅.traces = b.store.traces := by
    calc s₅.traces
      _ = b₅.store.traces := (StoreM.explodeGaps_relates StoreM.gentle_traces root).of_leads gaps
      _ = s₄.traces := congrArg traces reported
      _ = (s₂.applySizes root).traces :=
          (StoreM.wrapSpacing_relates StoreM.gentle_traces root).of_leads spacing
      _ = s₂.traces := traces_applySizes s₂ root
      _ = (b.store.prepareHeaders root).traces :=
          (StoreM.insertHeaders_retains root).of_leads headers
      _ = b.store.traces := traces_prepareHeaders b.store root
  have placed := moves_placeWithin s₅.depthBound s₅ root ⟨sheet, 0, 0⟩
  have styled := moves_cascade (s₅.place root ⟨sheet, 0, 0⟩) root outer
  rcases placed.location (.cell c) with same | reach
  · left
    calc ((s₅.place root ⟨sheet, 0, 0⟩).cascade root outer).places c
      _ = (s₅.place root ⟨sheet, 0, 0⟩).places c := (styled.location (.cell c)).resolve_right id
      _ = s₅.places c := same
      _ = b.store.places c := congrFun (places_of_traces front) c
  · right
    exact (placed.toAlike.trans styled.toAlike).symm.reach reach

theorem push_gap_keeps (k : StackId) (g : Gap) : Keeps Build.placing (push (.stack k) (.gap g)) :=
  Keeps.get.bind fun _ => changeStore_keeps fun s => traces_setChildren s _ _

theorem layOutSheet_places {wb : Workbook} {sheet : Sheet} {name : String} {b b' : Build} {r : Unit}
    (h : Runs (wb.layOutSheet sheet name) b r b') : b'.config = b.config ∧
      ∀ c, b'.store.places c = b.store.places c ∨ Reach b'.store sheet.element (.cell c) := by
  simp only [Workbook.layOutSheet] at h
  split at h
  case isTrue =>
    obtain ⟨_, m, pushed, laid⟩ := runs_bind.1 h
    obtain ⟨config, before⟩ := Prod.mk.inj ((push_gap_keeps _ _).of_runs pushed)
    obtain ⟨config', after⟩ := layOut_places laid
    refine ⟨config'.trans config, fun c => ?_⟩
    rw [← before]
    exact after c
  case isFalse => exact layOut_places h

/-- When all sheets are laid out, no cell is placed that is on none of them. -/
theorem layOutSheets_places {wb : Workbook} {sheets : List (Sheet × String)} {w w' : Writing}
    (wf : w.build.store.WellFormed)
    (hroots : ∀ entry ∈ sheets, w.build.store.InStore entry.1.element) {r : Unit}
    (h : Runs (sheets.forM fun entry => WriteM.ofBuild (wb.layOutSheet entry.1 entry.2)) w r w') :
    w'.build.config = w.build.config ∧ ∀ c, w'.build.store.places c = w.build.store.places c ∨
      ∃ entry ∈ sheets, Reach w'.build.store entry.1.element (.cell c) := by
  induction sheets generalizing w with
  | nil =>
      obtain rfl := runs_forM_nil.1 h
      exact ⟨rfl, fun _ => .inl rfl⟩
  | cons entry rest ih =>
      obtain ⟨m, first, others⟩ := runs_forM_cons.1 h
      obtain ⟨bm, step, rfl⟩ := WriteM.runs_ofBuild.1 first
      have laid := layOutSheet_laidOut wf (hroots entry (by simp)) step
      have held : ∀ other ∈ rest, bm.store.InStore other.1.element :=
        fun other hother => laid.grows.held _ (hroots other (List.mem_cons_of_mem _ hother))
      have grows := (layOutSheets_allLaidOut (w := { w with build := bm }) laid.grows.wf held
        others).1.grows
      obtain ⟨config, here⟩ := layOutSheet_places step
      obtain ⟨config', later⟩ := ih (w := { w with build := bm }) laid.grows.wf held others
      refine ⟨config'.trans config, fun c => ?_⟩
      rcases later c with same | ⟨other, hother, reach⟩
      · rcases here c with same' | reach
        · exact .inl (same.trans same')
        · exact .inr ⟨entry, by simp, grows.reach _ _ rfl reach⟩
      · exact .inr ⟨other, List.mem_cons_of_mem _ hother, reach⟩

end BuildM

end Spreadsheet
