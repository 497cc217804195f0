import Spreadsheet.Proofs.Formula.Pointing
import Spreadsheet.Proofs.Workbook

/-!
# What the sheets of a written workbook hold

Every cell of every sheet is written once, on its sheet and at its place.  No two of the blocks that
are written have anything in common, and the cells of a container are in its area.  Formulas refer to
cells by the places where these were written.
-/

namespace Spreadsheet

open Store

variable {s t : Store} {sheet : String} {w w' : Writing} {wb : Workbook}

/-! ## Blocks -/

namespace Block

/-- Whether a block covers a cell. -/
def Covers (b : Block) (c : Cell) : Prop :=
  b.first.row ≤ c.row ∧ c.row ≤ b.last.row ∧ b.first.col ≤ c.col ∧ c.col ≤ b.last.col

/-- Whether two blocks have no cell in common. -/
def Disjoint (a b : Block) : Prop :=
  ∀ c, a.Covers c → ¬b.Covers c

theorem covers_first {l : Location} {e : Extent} (he : 1 ≤ e.rows ∧ 1 ≤ e.cols) :
    (covering l e).Covers ⟨l.row, l.col⟩ := by
  simp only [Covers, covering]
  omega

theorem Disjoint.symm {a b : Block} (h : a.Disjoint b) : b.Disjoint a :=
  fun c hb ha => h c ha hb

end Block

theorem Area.Disjoint.blocks {a b : Area} (h : Area.Disjoint a b)
    (ha : 1 ≤ a.size.rows ∧ 1 ≤ a.size.cols) (hb : 1 ≤ b.size.rows ∧ 1 ≤ b.size.cols) :
    (Block.covering a.corner a.size).Disjoint (.covering b.corner b.size) := by
  intro c
  simp only [Area.Disjoint, Block.Covers, Block.covering] at *
  omega

theorem Area.Within.blocks {a b : Area} (h : Area.Within a b)
    (ha : 1 ≤ a.size.rows ∧ 1 ≤ a.size.cols) {c : Cell}
    (hc : (Block.covering a.corner a.size).Covers c) :
    (Block.covering b.corner b.size).Covers c := by
  simp only [Area.Within, Block.Covers, Block.covering] at *
  omega

namespace Store

theorem Written.block_eq {c : CellId} {a : Area} {entry : CellWrite} (h : s.Written sheet c entry)
    (ha : s.cellArea? c = some a) : entry.block = .covering a.corner a.size ∧ a.size = (s.cell c).merge := by
  obtain ⟨l, hl, block⟩ := h.block
  rw [cellArea?, hl] at ha
  obtain rfl := Option.some.inj ha
  exact ⟨block, rfl⟩

end Store

theorem Tiled.moved {root : Element} {sheet : String} (h : Tiled s root sheet) (acyclic : s.Acyclic)
    (same : Moves (fun _ => False) s t) : Tiled t root sheet := by
  have location : ∀ e, t.location? e = s.location? e := fun e => (same.location e).resolve_right id
  have area : ∀ c, t.cellArea? c = s.cellArea? c := by
    intro c
    rw [cellArea?, cellArea?, same.merge c]
    exact congrArg _ (location (.cell c))
  have leaves := same.toAlike.leaves_eq acyclic
  have reach : ∀ {a b}, Reach t a b → Reach s a b := same.toAlike.reach
  refine ⟨leaves root ▸ h.once, fun c hc => ?_, fun x y hx hy above beside => ?_,
    fun e he container c hc => ?_⟩
  · rw [area c]
    exact h.located c (leaves root ▸ hc)
  · have apart := h.parted x y (reach hx) (reach hy)
      (fun below => above (same.toAlike.symm.reach below))
      fun below => beside (same.toAlike.symm.reach below)
    exact apart.congr (leaves x) (leaves y) (fun c _ => area c) fun c _ => area c
  · have below := reach ((same.toAlike.acyclic acyclic).mem_subtree.1 he)
    rw [location, area, same.extent_eq acyclic]
    exact h.inside e (acyclic.mem_subtree.2 below) container c (leaves e ▸ hc)

/-! ## What is on the sheets -/

/-- What was written to a sheet, and the tree of the sheet as it was resolved and as it is in the
end. -/
structure Represents (resolved final : Store) (root : Element) (out : WrittenSheet) : Prop where
  disjoint : out.writes.Pairwise fun v w => v.block.Disjoint w.block
  /-- Nothing of the resolved tree is lost. -/
  kept : ∀ e ∈ resolved.subtree root, e.isSolid = true → e ∈ final.subtree root
  /-- What was written is, in order, what the cells of the tree are written as. -/
  cells : List.Forall₂ (final.Written out.name) (final.leaves root) out.writes.reverse
  located : ∀ c ∈ final.leaves root, ∃ l, (final.cell c).location = some l ∧ l.sheet = out.name
  once : ∀ c ∈ final.leaves root,
    ∃! i : Nat, ∃ w, out.writes[i]? = some w ∧ final.Written out.name c w
  inside : ∀ e ∈ final.subtree root, e.isContainer = true → ∀ c ∈ final.leaves e,
    ∃ l l', final.location? e = some l ∧ (final.cell c).location = some l' ∧ l'.sheet = l.sheet ∧
      ∀ cell, (Block.covering l' (final.cell c).merge).Covers cell →
        (Block.covering l (final.extent e)).Covers cell

theorem Tiled.represents {resolved final : Store} {root : Element} {out : WrittenSheet}
    (tiled : Tiled final root out.name) (wf : final.WellFormed)
    (kept : ∀ e ∈ resolved.subtree root, e.isSolid = true → e ∈ final.subtree root)
    (cells : List.Forall₂ (final.Written out.name) (final.leaves root) out.writes.reverse) :
    Represents resolved final root out := by
  have block : ∀ c entry, final.Written out.name c entry → ∀ a, final.cellArea? c = some a →
      entry.block = .covering a.corner a.size ∧ 1 ≤ a.size.rows ∧ 1 ≤ a.size.cols := by
    intro c entry written a ha
    obtain ⟨block, size⟩ := written.block_eq ha
    exact ⟨block, size ▸ wf.merges c⟩
  have located : ∀ c ∈ final.leaves root, ∃ l, (final.cell c).location = some l ∧
      l.sheet = out.name := by
    intro c hc
    obtain ⟨a, ha, sheet⟩ := tiled.located c hc
    obtain ⟨l, hl, rfl⟩ := Option.map_eq_some_iff.1 ha
    exact ⟨l, hl, sheet⟩
  have disjoint : out.writes.Pairwise fun v w => v.block.Disjoint w.block := by
    have inOrder : out.writes.reverse.Pairwise fun v w => v.block.Disjoint w.block := by
      refine pairwise_of_forall₂ cells (tiled.disjoint wf.acyclic) fun c d v w hv hw apart => ?_
      obtain ⟨l, hl, -⟩ := hv.block
      obtain ⟨l', hl', -⟩ := hw.block
      have ha : final.cellArea? c = some ⟨l, (final.cell c).merge⟩ := by rw [cellArea?, hl]; rfl
      have hb : final.cellArea? d = some ⟨l', (final.cell d).merge⟩ := by rw [cellArea?, hl']; rfl
      rw [(block c v hv _ ha).1, (block d w hw _ hb).1]
      exact (apart _ _ ha hb).blocks (wf.merges c) (wf.merges d)
    exact (List.pairwise_reverse.1 inOrder).imp Block.Disjoint.symm
  refine ⟨disjoint, kept, cells, located, fun c hc => ?_, fun e he container c hc => ?_⟩
  · obtain ⟨entry, mem, written⟩ := forall₂_left cells hc
    obtain ⟨i, hi⟩ := List.mem_iff_getElem?.1 (List.mem_reverse.1 mem)
    refine ⟨i, ⟨entry, hi, written⟩, ?_⟩
    rintro j ⟨other, hj, written'⟩
    obtain ⟨a, ha, -⟩ := tiled.located c hc
    obtain ⟨here, size⟩ := block c entry written a ha
    obtain ⟨there, -⟩ := block c other written' a ha
    refine index_unique (fun _ _ => Block.Disjoint.symm) disjoint hj hi fun apart => ?_
    rw [here, there] at apart
    exact apart _ (Block.covers_first size) (Block.covers_first size)
  · obtain ⟨l, a, hl, ha, within⟩ := tiled.inside e he container c hc
    obtain ⟨l', hl', rfl⟩ := Option.map_eq_some_iff.1 ha
    exact ⟨l, l', hl, hl', within.1, fun cell => within.blocks (wf.merges c)⟩

/-- What the sheets of a workbook hold that was resolved and then written. -/
structure Workbook.Shown (wb : Workbook) (resolved final : Store) (sheets : List WrittenSheet) :
    Prop where
  names : wb.sheetNames = .ok (sheets.map (·.name))
  once : (wb.sheets.flatMap fun sheet => final.leaves sheet.element).Nodup
  each : List.Forall₂ (fun sheet out => Represents resolved final sheet.element out) wb.sheets sheets

theorem Workbook.Built.tiled {names : List String} {resolved : Build} {laid : Store}
    (built : wb.Built w names resolved laid w') :
    List.Forall₂ (fun sheet out => Tiled w'.build.store sheet.element out.name ∧
      List.Forall₂ (w'.build.store.Written out.name) (w'.build.store.leaves sheet.element)
        out.writes.reverse) wb.sheets w'.sink.sheets := by
  have wf := built.laidOut.grows.wf
  have length : names.length = wb.sheets.length := length_namesFrom built.named
  have named : (wb.sheets.zip names).map Prod.fst = wb.sheets := List.map_fst_zip length.ge
  have logged : List.Forall₂ (fun entry out => Logged w'.build.store entry (out.name, out.writes))
      (wb.sheets.zip names) w'.sink.sheets := List.forall₂_map_right_iff.1 built.logged
  have each : ∀ entry ∈ wb.sheets.zip names, Tiled w'.build.store entry.1.element entry.2 :=
    fun entry hentry =>
      (built.laidOut.tiled built.inks.once entry hentry).moved wf.acyclic built.inks.toMoves
  rw [← named]
  refine List.forall₂_map_left_iff.2 ?_
  refine ((List.forall₂_and_left _ _).2 ⟨each, logged⟩).imp fun entry out h => ?_
  obtain ⟨tiled, name, cells⟩ := h
  rw [← show out.name = entry.2 from name] at tiled cells
  exact ⟨tiled, cells⟩

theorem Workbook.Built.shown {names : List String} {resolved : Build} {laid : Store}
    (built : wb.Built w names resolved laid w') (acyclic : resolved.store.Acyclic) :
    wb.Shown resolved.store w'.build.store w'.sink.sheets := by
  have wf := built.laidOut.grows.wf
  have wf' := built.inks.toAlike.wellFormed wf
  have leaves := built.inks.toAlike.leaves_eq wf.acyclic
  have length : names.length = wb.sheets.length := length_namesFrom built.named
  have named : (wb.sheets.zip names).map Prod.fst = wb.sheets := List.map_fst_zip length.ge
  have logged : List.Forall₂ (fun entry out => Logged w'.build.store entry (out.name, out.writes))
      (wb.sheets.zip names) w'.sink.sheets := List.forall₂_map_right_iff.1 built.logged
  refine ⟨?_, ?_, built.tiled.imp fun sheet out h => h.1.represents wf' (fun e he solid => ?_) h.2⟩
  · rw [built.named, ← List.map_snd_zip length.le, map_eq_of_forall₂ logged fun _ _ h => h.1.symm]
  · have once := built.inks.once
    rw [← named, List.flatMap_map]
    simpa only [leaves] using once
  · have reach := built.laidOut.grows.reach _ e solid (acyclic.mem_subtree.1 he)
    exact wf'.acyclic.mem_subtree.2 (built.inks.toAlike.symm.reach reach)

theorem Workbook.shown_of_write {path : String} {desktop : Option Desktop}
    (wf : w.build.store.WellFormed)
    (hsheets : ∀ sheet ∈ wb.sheets, w.build.store.InStore sheet.element)
    (fresh : w.sink.sheets = []) (h : Runs (wb.write path desktop) w () w') :
    ∃ resolved, Runs wb.resolve w.build () resolved ∧
      wb.Shown resolved.store w'.build.store w'.sink.sheets := by
  obtain ⟨names, resolved, laid, built⟩ := wb.built_of_write wf hsheets fresh h
  have evolves := BuildM.workbookResolve_evolves wf hsheets built.resolves
  exact ⟨resolved, built.resolves, built.shown evolves.wf.acyclic⟩

/-- A merged cell below a header, and on another sheet a row, below a gap, that refers to it. -/
def Store.sample : Store where
  cells := ⟨#[{ value := .text "Rent", merge := ⟨2, 1⟩, id := some "rent" }]⟩
  vectors := ⟨#[{ orientation := .vertical, header := some "Costs", children := [.cell ⟨0⟩] },
    { orientation := .horizontal, children := [.expression ⟨0⟩] }]⟩
  groups := ⟨#[{ orientation := .vertical, children := [.vector ⟨0⟩] },
    { orientation := .vertical, children := [.gap { size := 1 }, .vector ⟨1⟩] }]⟩
  expressions := ⟨#[{
    template :=
      { source := "[rent] & [rent]"
        expanded := "refs[\"rent\"] & refs[\"rent\"]"
        keys := [.name "rent"]
        isRef := false
        ast := .binary .concat (.ref (.name "rent")) (.ref (.name "rent")) } }]⟩

/-- The state in which the book is written. -/
def Writing.sample : Writing where
  build :=
    { store := .sample
      symbols := { ids := { localEntries := [("rent", some (.cell ⟨0⟩))] } }
      pins := [.stack ⟨0⟩, .stack ⟨1⟩] }
  sink := {}

/-- The two sheets. -/
def Workbook.sample : Workbook where
  sheets := [{ root := ⟨0⟩, title := some "Costs" }, { root := ⟨1⟩, title := some "It's due" }]

theorem sample_wellFormed : Store.sample.WellFormed :=
  wellFormed_of_falling (fun | .stack _ => 2 | .vector _ => 1 | _ => 0) (by decide) (by decide)

theorem sample_runs : ∃ w', Runs (Workbook.sample.write defaultPath none) .sample () w' :=
  exists_runs (by decide +kernel)

/-- Whether a text that stands in a formula on a sheet is read as the place where a cell was written,
wherever that was; places whose numbers are not below the bound have no names that can be read. -/
def PointsTo (final : Store) (book : List (Sheet × WrittenSheet)) (sheet : String) (c : CellId)
    (text : String) : Prop :=
  ∀ entry ∈ book, c ∈ final.leaves entry.1.element →
    ∃ w ∈ entry.2.writes, final.Written entry.2.name c w ∧
      (w.block.first.row + 1 < coordinateBound → w.block.first.col + 1 < coordinateBound →
        readReference sheet text = some ⟨entry.2.name, w.block.first.row, w.block.first.col⟩)

theorem Represents.reads {resolved final : Store} {root : Element} {out : WrittenSheet}
    (h : Represents resolved final root out) {c : CellId} (hc : c ∈ final.leaves root)
    {text : String} (fits : ∀ l, (final.cell c).location = some l → text = l.qualified sheet) :
    ∃ w ∈ out.writes, final.Written out.name c w ∧
      (w.block.first.row + 1 < coordinateBound → w.block.first.col + 1 < coordinateBound →
        readReference sheet text = some ⟨out.name, w.block.first.row, w.block.first.col⟩) := by
  obtain ⟨entry, mem, written⟩ := forall₂_left h.cells hc
  obtain ⟨l, hl, block⟩ := written.block
  obtain ⟨l', hl', here⟩ := h.located c hc
  obtain rfl : l = l' := Option.some.inj (hl.symm.trans hl')
  refine ⟨entry, List.mem_reverse.1 mem, written, ?_⟩
  rw [block, fits l hl, ← here]
  exact readReference_qualified sheet

theorem Workbook.Shown.pointsTo {resolved final : Store} {sheets : List WrittenSheet}
    (shown : wb.Shown resolved final sheets) {c : CellId} {text : String}
    (fits : ∀ l, (final.cell c).location = some l → text = l.qualified sheet) :
    PointsTo final (wb.sheets.zip sheets) sheet c text := by
  intro entry hentry hc
  exact (List.forall₂_zip shown.each hentry).reads hc fits

end Spreadsheet
