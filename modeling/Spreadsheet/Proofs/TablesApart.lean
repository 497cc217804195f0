import Spreadsheet.Proofs.Layout.TableNames
import Spreadsheet.Proofs.Resolve.Places
import Spreadsheet.Proofs.Sheets
import Spreadsheet.Proofs.Tables

/-!
# Tables do not overlap

The block of a table begins at a cell of its frame and ends, in each direction, at one.  So the blocks
of frames of which neither is in the other have nothing in common, and what is written into the block
of a table are cells of its frame.  The tables of all sheets have different names.
-/

namespace Spreadsheet

open Store

variable {s t : Store} {sheet : String} {w w' : Writing} {wb : Workbook}

/-! ## Blocks between cells -/

/-- How far along an axis a cell of a sheet is. -/
def Orientation.index : Orientation → Cell → Nat
  | .horizontal, c => c.col
  | .vertical, c => c.row

theorem Block.Covers.index {b : Block} {c : Cell} (h : b.Covers c) (o : Orientation) :
    o.index b.first ≤ o.index c ∧ o.index c ≤ o.index b.last := by
  obtain ⟨top, bottom, left, right⟩ := h
  cases o
  · exact ⟨left, right⟩
  · exact ⟨top, bottom⟩

namespace Store

/-- Whether a block begins, in each direction, not in front of all cells below an element, and ends in
front of where one of them does. -/
structure Spans (s : Store) (e : Element) (b : Block) : Prop where
  begins : ∀ o : Orientation, ∃ c ∈ s.leaves e, ∃ a, s.cellArea? c = some a ∧
    o.position a.corner ≤ o.index b.first
  ends : ∀ o : Orientation, ∃ c ∈ s.leaves e, ∃ a, s.cellArea? c = some a ∧
    o.index b.last < o.position a.corner + o.along a.size

/-- Where cells are apart, the blocks between them are. -/
theorem Parted.disjoint {x y : Element} {b b' : Block} (h : Parted s x y) (hx : Spans s x b)
    (hy : Spans s y b') : b.Disjoint b' := by
  intro cell hb hb'
  obtain ⟨o, ahead | behind⟩ := h
  · obtain ⟨c, hc, a, ha, stop⟩ := hx.ends o
    obtain ⟨d, hd, a', ha', start⟩ := hy.begins o
    have apart := ahead c hc d hd a a' ha ha'
    have last := (hb.index o).2
    have first := (hb'.index o).1
    simp only [Area.Ahead] at apart
    omega
  · obtain ⟨c, hc, a, ha, start⟩ := hx.begins o
    obtain ⟨d, hd, a', ha', stop⟩ := hy.ends o
    have apart := behind c hc d hd a a' ha ha'
    have first := (hb.index o).1
    have last := (hb'.index o).2
    simp only [Area.Ahead] at apart
    omega

/-- What a cell is written to spans the cell. -/
theorem Written.spans {c : CellId} {entry : CellWrite} (h : s.Written sheet c entry)
    (wf : s.WellFormed) : Spans s (.cell c) entry.block := by
  obtain ⟨l, hl, block⟩ := h.block
  have area : s.cellArea? c = some ⟨l, (s.cell c).merge⟩ := by rw [cellArea?, hl]; rfl
  have leaf : c ∈ s.leaves (.cell c) := by rw [leaves_cell wf.acyclic]; exact List.mem_singleton_self c
  obtain ⟨rows, cols⟩ := wf.merges c
  rw [block]
  refine ⟨fun o => ⟨c, leaf, _, area, ?_⟩, fun o => ⟨c, leaf, _, area, ?_⟩⟩
  · cases o <;> exact Nat.le_refl _
  · cases o <;> simp only [Orientation.index, Orientation.position, Orientation.along, Block.covering]
      <;> omega

/-! ## The block of a frame -/

theorem ends_of_vectorRange? {includeHeaders : Bool} {v : VectorId} {first last : Location}
    (h : s.vectorRange? includeHeaders v = some (first, last)) :
    (∃ c, .cell c ∈ s.children (.vector v) ∧ (s.cell c).location = some first) ∧
      ∃ c, .cell c ∈ s.children (.vector v) ∧ (s.cell c).location = some last := by
  simp only [vectorRange?, Option.bind_eq_bind, Option.bind_eq_some_iff, Option.pure_def,
    Option.some.injEq, Prod.mk.injEq] at h
  obtain ⟨c, begins, l, hl, l', hl', rfl, rfl⟩ := h
  have first := mem_children_of_begins begins
  refine ⟨⟨c, first, hl⟩, _, ?_, hl'⟩
  cases final : (s.vectorCells v).getLast? with
  | none => exact first
  | some d => exact mem_children_of_vectorCells (List.mem_of_getLast? final)

/-- The block of a frame spans the frame. -/
theorem spans_frame (wf : s.WellFormed) {f : FrameId} {includeHeaders : Bool} {first last : Location}
    (range : s.frameRange? includeHeaders f = some (first, last)) :
    Spans s (.frame f) ⟨⟨first.row, first.col⟩, ⟨last.row, last.col⟩⟩ := by
  simp only [frameRange?, Option.bind_eq_bind, Option.bind_eq_some_iff, Option.pure_def,
    Option.some.injEq, Prod.mk.injEq] at range
  obtain ⟨ranges, mapped, ⟨first', _⟩, front, rfl, rfl⟩ := range
  have leaf : ∀ v ∈ s.frameVectors f, ∀ c, .cell c ∈ s.children (.vector v) →
      c ∈ s.leaves (.frame f) := fun v hv c hc =>
    wf.acyclic.mem_leaves.2 ((reach_of_child (mem_frameVectors.1 hv)).trans (reach_of_child hc))
  have area : ∀ {c l}, (s.cell c).location = some l → s.cellArea? c = some ⟨l, (s.cell c).merge⟩ :=
    fun hl => by rw [cellArea?, hl]; rfl
  refine ⟨fun o => ?_, fun o => ?_⟩
  · obtain ⟨v, hv, range⟩ := forall₂_right (forall₂_of_mapM mapped) (List.mem_of_head? front)
    obtain ⟨⟨c, hc, hl⟩, -⟩ := ends_of_vectorRange? range
    exact ⟨c, leaf v hv c hc, _, area hl, by cases o <;> exact Nat.le_refl _⟩
  · obtain ⟨⟨l, l'⟩, furthest, same⟩ : ∃ range ∈ ranges, o.position range.2 =
        (ranges.map fun range => o.position range.2).foldl max 0 := by
      cases ranges with
      | nil => cases front
      | cons range ranges =>
          rw [List.map_cons, List.foldl_cons, Nat.zero_max, ← List.mem_map]
          exact foldl_max_mem _ _
    obtain ⟨v, hv, range⟩ := forall₂_right (forall₂_of_mapM mapped) furthest
    obtain ⟨-, c, hc, hl⟩ := ends_of_vectorRange? range
    refine ⟨c, leaf v hv c hc, _, area hl, ?_⟩
    rw [← position_furthest o first'.sheet] at same
    obtain ⟨rows, cols⟩ := wf.merges c
    cases o <;> simp only [Orientation.index, Orientation.position, Orientation.along] at same ⊢
      <;> omega

/-! ## Frames beside each other -/

/-- Whether no frame is in another one. -/
def Unnested (s : Store) : Prop :=
  ∀ f g, Reach s (.frame f) (.frame g) → f = g

/-- Where containers hold what they may hold, no frame is in another one. -/
theorem Regular.unnested (h : s.Regular) : s.Unnested := by
  intro f g reach
  rcases reach.eq_or_child with same | ⟨child, below, reach⟩
  · cases same
    rfl
  have held : child.isContainer = true := isContainer_of_reach reach rfl
  have takes := h.takes (.frame f) child below
  cases child with
  | vector v =>
      rcases reach.eq_or_child with same | ⟨inner, below, reach⟩
      · cases same
      · exact absurd (isContainer_of_reach reach rfl) (by simp [show inner.isContainer = false from
          h.takes (.vector v) inner below])
  | frame _ => cases takes.1
  | stack _ => cases takes.1
  | _ => cases held

/-- An element with cells below it is in a tree once, if all its cells are. -/
theorem subtree_once (acyclic : s.Acyclic) {root : Element} (once : (s.leaves root).Nodup) :
    (s.subtree root).Pairwise fun x y => s.leaves x ≠ [] → x ≠ y := by
  induction root using acyclic.induction with
  | step e ih =>
      rw [acyclic.leaves_eq, List.nodup_append, List.nodup_flatMap] at once
      obtain ⟨-, ⟨each, others⟩, -⟩ := once
      rw [acyclic.subtree_eq]
      refine .cons (fun x hx _ same => ?_) (List.pairwise_flatMap.2 ⟨fun child below => ?_, ?_⟩)
      · obtain ⟨child, below, hx⟩ := List.mem_flatMap.1 hx
        exact acyclic e child below (same ▸ acyclic.mem_subtree.1 hx)
      · exact ih child below (each child below)
      · refine others.imp fun apart x hx y hy bearing same => ?_
        subst same
        obtain ⟨c, hc⟩ := leaves_ne_nil_iff.1 bearing
        exact apart (acyclic.leaves_subset (acyclic.mem_subtree.1 hx) hc)
          (acyclic.leaves_subset (acyclic.mem_subtree.1 hy) hc)

theorem tableFrame?_eq_some {e : Element} {f : FrameId} :
    s.tableFrame? e = some f ↔
      e = .frame f ∧ (s.frame f).table.isSome ∧ (s.frameRange? true f).isSome := by
  cases e with
  | frame g =>
      simp only [tableFrame?, Option.ite_none_right_eq_some, Option.some.injEq, Element.frame.injEq]
      constructor
      · rintro ⟨table, rfl⟩
        exact ⟨rfl, table⟩
      · rintro ⟨rfl, table⟩
        exact ⟨table, rfl⟩
  | _ => simp [tableFrame?]

theorem mem_tableFrames (acyclic : s.Acyclic) {root : Element} {f : FrameId} :
    f ∈ s.tableFrames root ↔ Reach s root (.frame f) ∧ (s.frame f).table.isSome ∧
      (s.frameRange? true f).isSome := by
  simp only [tableFrames, List.mem_filterMap, tableFrame?_eq_some, acyclic.mem_subtree]
  constructor
  · rintro ⟨_, reach, rfl, table⟩
    exact ⟨reach, table⟩
  · rintro ⟨reach, table⟩
    exact ⟨_, reach, rfl, table⟩

theorem tableFrames_nodup (wf : s.WellFormed) {root : Element} (once : (s.leaves root).Nodup) :
    (s.tableFrames root).Nodup := by
  refine (subtree_once wf.acyclic once).filterMap _ fun e e' apart f hf g hg same => ?_
  subst same
  obtain ⟨rfl, -, range⟩ := tableFrame?_eq_some.1 hf
  obtain ⟨rfl, -⟩ := tableFrame?_eq_some.1 hg
  obtain ⟨⟨first, last⟩, range⟩ := Option.isSome_iff_exists.1 range
  obtain ⟨c, hc, -⟩ := (spans_frame wf range).begins .vertical
  exact apart (leaves_ne_nil_iff.2 ⟨c, hc⟩) rfl

theorem Specified.spans (wf : s.WellFormed) {f : FrameId} {table : TableSpec}
    (h : s.Specified f table) : Spans s (.frame f) table.block := by
  obtain ⟨first, last, range, block, -⟩ := h
  exact block ▸ spans_frame wf range

end Store

/-! ## The tables of a sheet -/

/-- What the tables of a sheet have to do with its frames and cells. -/
structure TablesApart (final : Store) (root : Element) (out : WrittenSheet) : Prop where
  /-- What was written is, in order, what the cells of the tree are written as. -/
  cells : List.Forall₂ (final.Written out.name) (final.leaves root) out.writes.reverse
  /-- The tables are, in order, those of the frames of the tree. -/
  specified : List.Forall₂ final.Specified (final.tableFrames root) out.tables
  disjoint : out.tables.Pairwise fun table other => table.block.Disjoint other.block
  /-- A cell that is written into the block of a table is one of its frame. -/
  own : ∀ entry ∈ (final.tableFrames root).zip out.tables, ∀ c ∈ final.leaves root,
    ∀ w ∈ out.writes, final.Written out.name c w → ¬w.block.Disjoint entry.2.block →
      c ∈ final.leaves (.frame entry.1)

theorem Tiled.tablesApart {root : Element} {out : WrittenSheet} (tiled : Tiled s root out.name)
    (wf : s.WellFormed)
    (unnested : ∀ f ∈ s.tableFrames root, ∀ g ∈ s.tableFrames root,
      Reach s (.frame f) (.frame g) → f = g)
    (cells : List.Forall₂ (s.Written out.name) (s.leaves root) out.writes.reverse)
    (specified : List.Forall₂ s.Specified (s.tableFrames root) out.tables) :
    TablesApart s root out := by
  have reached : ∀ f ∈ s.tableFrames root, Reach s root (.frame f) :=
    fun f hf => ((mem_tableFrames wf.acyclic).1 hf).1
  refine ⟨cells, specified, ?_, fun entry hentry c hc w _ written meets => ?_⟩
  · have apart : (s.tableFrames root).Pairwise fun f g => Parted s (.frame f) (.frame g) := by
      refine (tableFrames_nodup wf tiled.once).imp_of_mem fun {f g} hf hg ne => ?_
      exact tiled.parted _ _ (reached f hf) (reached g hg) (fun reach => ne (unnested f hf g hg reach))
        fun reach => ne (unnested g hg f hf reach).symm
    exact pairwise_of_forall₂ specified apart fun f g table other hf hg parted =>
      parted.disjoint (hf.spans wf) (hg.spans wf)
  · obtain ⟨f, table⟩ := entry
    have hf := (List.of_mem_zip hentry).1
    have spans : Spans s (.frame f) table.block := (List.forall₂_zip specified hentry).spans wf
    by_contra outside
    refine meets (Parted.disjoint ?_ (written.spans wf) spans)
    refine tiled.parted _ _ (wf.acyclic.mem_leaves.1 hc) (reached f hf) (fun reach => ?_)
      fun reach => outside (wf.acyclic.mem_leaves.2 reach)
    rcases reach.eq_or_child with same | ⟨_, none, -⟩
    · cases same
    · cases none

/-! ## The tables of a workbook -/

namespace Workbook

/-- What is written as tables are the tables of the frames of the sheets. -/
theorem Stages.defined {names : List String} {resolved : Build} {laid : Writing}
    {handles : List Nat} {sink : Sink} {inked : Writing}
    (stages : wb.Stages w names resolved laid handles sink inked w') (fresh : w.sink.sheets = []) :
    w'.build.store.outline = laid.build.store.outline ∧
      List.Forall₂ (fun sheet out => Defined w'.build.store sheet.element out.tables)
        wb.sheets w'.sink.sheets := by
  have named : (wb.sheets.zip names).map Prod.fst = wb.sheets :=
    List.map_fst_zip (length_namesFrom stages.named).ge
  have unwritten : Keeps (fun w => w.sink.sheets) ((wb.sheets.zip names).forM fun entry =>
      WriteM.ofBuild (wb.layOutSheet entry.1 entry.2)) := .forM (fun _ _ => rfl) _
  obtain ⟨numbers, created⟩ := createSheets_map (p := WrittenSheet.tables) (fun _ _ => rfl) 0
    stages.creates
  rw [unwritten.of_runs stages.laysOut, fresh] at numbers created
  have writes := stages.writes
  rw [numbers] at writes
  obtain ⟨outline, fronts, outs, tables, defined⟩ := writeSheets_tables (w := { laid with sink }) [] created
    writes
  rw [stages.store]
  refine ⟨outline, ?_⟩
  have final : w'.sink.sheets.map (·.tables) = outs := by
    rw [stages.sheets]
    exact tables
  rw [← final] at defined
  rw [← named]
  refine List.forall₂_map_left_iff.2 ((List.forall₂_map_right_iff.1 defined).imp ?_)
  exact fun _ _ here => here.congr outline.symm fronts.symm

/-- No frame becomes a table while a workbook is written. -/
theorem Stages.tableOptions {names : List String} {resolved : Build} {laid : Writing}
    {handles : List Nat} {sink : Sink} {inked : Writing}
    (stages : wb.Stages w names resolved laid handles sink inked w')
    (outline : w'.build.store.outline = laid.build.store.outline) :
    w'.build.store.tableOptions = w.build.store.tableOptions := by
  have laidOut : Keeps (fun w => w.build.store.tableOptions)
      ((wb.sheets.zip names).forM fun entry =>
        WriteM.ofBuild (wb.layOutSheet entry.1 entry.2)) := by
    refine .forM (fun entry w => ?_) _
    exact congrArg Prod.snd (BuildM.layOutSheet_brands wb entry.1 entry.2 w.build)
  calc w'.build.store.tableOptions
    _ = laid.build.store.tableOptions := by
        funext f
        unfold Store.tableOptions frame
        rw [(tables_of_outline outline).2.1]
    _ = resolved.store.tableOptions := laidOut.of_runs stages.laysOut
    _ = w.build.store.tableOptions :=
        (BuildM.resolveFrom_lasting Build.lasting_tableOptions wb [] wb.sheets).of_runs
          stages.resolves

end Workbook

/-! ## Two tables on a sheet -/

/-- Two frames above each other, each of one column and a table under the same name. -/
def Store.twoTables : Store where
  cells := ⟨#[{ value := .text "1" }, { value := .text "2", merge := ⟨2, 1⟩ }, { value := .text "3" }]⟩
  vectors := ⟨#[
    { orientation := .vertical, header := some "Costs", children := [.cell ⟨0⟩, .cell ⟨1⟩] },
    { orientation := .vertical, header := some "Costs", children := [.cell ⟨2⟩] }]⟩
  frames := ⟨#[
    { orientation := .horizontal, children := [.vector ⟨0⟩], table := some { name := some "T" } },
    { orientation := .horizontal, children := [.vector ⟨1⟩], table := some { name := some "T" } }]⟩
  groups := ⟨#[{ orientation := .vertical, children := [.frame ⟨0⟩, .frame ⟨1⟩] }]⟩

/-- The state in which the book with the two frames is written. -/
def Writing.twoTables : Writing where
  build := { store := .twoTables, pins := [.stack ⟨0⟩] }
  sink := {}

/-- A book of one sheet. -/
def Workbook.oneSheet : Workbook where
  sheets := [{ root := ⟨0⟩ }]

theorem twoTables_wellFormed : Store.twoTables.WellFormed :=
  wellFormed_of_falling (fun | .stack _ => 3 | .frame _ => 2 | .vector _ => 1 | _ => 0) (by decide)
    (by decide)

theorem twoTables_unnested : Store.twoTables.Unnested :=
  (regular_of_containers (by decide) (by decide)).unnested

theorem twoTables_runs :
    ∃ w', Runs (Workbook.oneSheet.write defaultPath none) .twoTables () w' :=
  exists_runs (by decide +kernel)

end Spreadsheet
