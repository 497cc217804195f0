import Spreadsheet.Proofs.Layout.Columns

/-!
# Tables that are laid out

The vectors of a table have their names before the gaps between them are filled, and the vectors in
the place of a gap have none.  So after a layout the names of a table differ, even when case is
ignored, and every vector that was in the table before has one.  If all cells are one column wide, the
names stand in the first row of the table.
-/

namespace Spreadsheet

variable {s t u : Store} {f : FrameId} {v : VectorId} {e root : Element} {b b' : Build}
  {sheet : String} {outer : Inherited} {r : Unit}

namespace Store

/-! ## Trees that have no cell twice -/

theorem Acyclic.disjoint_children (acyclic : s.Acyclic) (once : (s.leaves e).Nodup) :
    (s.children e).Pairwise fun a b => List.Disjoint (s.leaves a) (s.leaves b) := by
  rw [acyclic.leaves_eq] at once
  exact (List.nodup_flatMap.1 once.of_append_right).2

theorem Acyclic.nodup_leaves_child (acyclic : s.Acyclic) (once : (s.leaves e).Nodup)
    {child : Element} (below : child ∈ s.children e) : (s.leaves child).Nodup := by
  rw [acyclic.leaves_eq] at once
  exact (List.nodup_flatMap.1 once.of_append_right).1 child below

theorem Acyclic.nodup_leaves (acyclic : s.Acyclic) (once : (s.leaves root).Nodup)
    (reach : Reach s root e) : (s.leaves e).Nodup := by
  induction reach with
  | root => exact once
  | child _ below ih => exact acyclic.nodup_leaves_child ih below

/-- A cell is below one child only. -/
theorem Acyclic.child_unique (acyclic : s.Acyclic) (once : (s.leaves e).Nodup) {a b : Element}
    (ha : a ∈ s.children e) (hb : b ∈ s.children e) {c : CellId} (hc : c ∈ s.leaves a)
    (hc' : c ∈ s.leaves b) : a = b := by
  by_contra apart
  have : Std.Symm fun a b : Element => List.Disjoint (s.leaves a) (s.leaves b) :=
    ⟨fun _ _ disjoint => disjoint.symm⟩
  exact (acyclic.disjoint_children once).forall ha hb apart hc hc'

/-- An element that has cells is a child of one element only. -/
theorem Acyclic.parent_unique (acyclic : s.Acyclic) (once : (s.leaves root).Nodup) {a b x : Element}
    (reach : Reach s root a) (reach' : Reach s root b) (ha : x ∈ s.children a)
    (hb : x ∈ s.children b) (bearing : s.leaves x ≠ []) : a = b := by
  obtain ⟨c, hc⟩ := leaves_ne_nil_iff.1 bearing
  -- A child of the root has the element as a child below it, or is itself the element.
  have apart : ∀ {a b : Element}, x ∈ s.children a → x ∈ s.children b → ∀ {child},
      child ∈ s.children a → (s.leaves a).Nodup → ¬Reach s child b := by
    intro a b ha hb child below once reach
    have leaf : c ∈ s.leaves child := acyclic.leaves_subset (reach.trans (reach_of_child hb)) hc
    obtain rfl := acyclic.child_unique once ha below hc leaf
    exact acyclic b x hb reach
  induction root using acyclic.induction with
  | step root ih =>
      rcases reach.eq_or_child with rfl | ⟨child, below, lower⟩
      · rcases reach'.eq_or_child with rfl | ⟨child', below', lower'⟩
        · rfl
        · exact absurd lower' (apart ha hb below' once)
      · rcases reach'.eq_or_child with rfl | ⟨child', below', lower'⟩
        · exact absurd lower (apart hb ha below once)
        · have leaf := acyclic.leaves_subset (lower.trans (reach_of_child ha)) hc
          have leaf' := acyclic.leaves_subset (lower'.trans (reach_of_child hb)) hc
          obtain rfl := acyclic.child_unique once below below' leaf leaf'
          exact ih child below (acyclic.nodup_leaves_child once below) lower lower'

theorem Acyclic.nodup_frameVectors (acyclic : s.Acyclic) (once : (s.leaves (.frame f)).Nodup)
    (bearing : s.Bearing f) : (s.frameVectors f).Nodup := by
  have pairs := acyclic.disjoint_children once
  refine List.pairwise_filterMap.2 (pairs.imp_of_mem fun {a b} ha _ disjoint v hv w hw same => ?_)
  obtain rfl := asVector?_eq_some.1 hv
  obtain rfl := asVector?_eq_some.1 hw
  subst same
  obtain ⟨c, hc⟩ := leaves_ne_nil_iff.1 (bearing v (mem_frameVectors.2 ha))
  exact disjoint hc hc

/-- A vector below a frame is one of its vectors. -/
theorem Regular.mem_frameVectors_of_reach (h : s.Regular) (reach : Reach s (.frame f) (.vector v)) :
    v ∈ s.frameVectors f := by
  rcases reach.eq_or_child with same | ⟨child, below, reach⟩
  · cases same
  · cases child with
    | vector w =>
        rcases reach.eq_or_child with same | ⟨x, below', reach⟩
        · obtain rfl := Element.vector.inj same
          exact mem_frameVectors.2 below
        · have lone : x.isContainer = false := h.takes (.vector w) x below'
          rw [isContainer_of_reach reach rfl] at lone
          cases lone
    | _ =>
        have bare := (h.takes (.frame f) _ below).1
        rw [isContainer_of_reach reach rfl] at bare
        cases bare

/-! ## Frames in the course of a layout -/

/-- What makes a frame a table, and its schema. -/
def tableParts (s : Store) (f : FrameId) : Option TableOptions × List (String × String) :=
  ((s.frame f).table, (s.frame f).schema)

/-- Whether there is no gap between the vectors of a frame. -/
def Gapless (s : Store) (f : FrameId) : Prop :=
  ∀ g, .gap g ∉ s.children (.frame f)

/-- Whether frames keep their vectors in order, and get no others where there is no gap. -/
structure KeepsFrames (s t : Store) : Prop where
  held : ∀ f, s.InStore (.frame f) → t.InStore (.frame f)
  vectors : ∀ f, (s.frameVectors f).Sublist (t.frameVectors f)
  gapless : ∀ f, s.InStore (.frame f) → s.Gapless f →
    t.children (.frame f) = s.children (.frame f)
  orientation : ∀ f, s.InStore (.frame f) → (t.frame f).orientation = (s.frame f).orientation
  parts : ∀ f, t.tableParts f = s.tableParts f

theorem KeepsFrames.refl (s : Store) : KeepsFrames s s :=
  ⟨fun _ h => h, fun _ => List.Sublist.refl _, fun _ _ _ => rfl, fun _ _ => rfl, fun _ => rfl⟩

theorem KeepsFrames.trans (first : KeepsFrames s t) (second : KeepsFrames t u) : KeepsFrames s u where
  held f hf := second.held f (first.held f hf)
  vectors f := (first.vectors f).trans (second.vectors f)
  gapless f hf gapless := by
    have same := first.gapless f hf gapless
    have still : t.Gapless f := by
      unfold Gapless
      rwa [same]
    exact (second.gapless f (first.held f hf) still).trans same
  orientation f hf := (second.orientation f (first.held f hf)).trans (first.orientation f hf)
  parts f := (second.parts f).trans (first.parts f)

theorem keepsFrames_of_alike (alike : Alike s t) (axes : t.marks = s.marks)
    (parts : t.tableParts = s.tableParts) : KeepsFrames s t where
  held f hf := (alike.inStore _).2 hf
  vectors f := by
    have same : (t.frame f).children = (s.frame f).children := alike.children (.frame f)
    rw [frameVectors, frameVectors, same]
  gapless f _ _ := alike.children _
  orientation f _ := Option.some.inj (congrFun (Prod.mk.inj axes).1 (.frame f))
  parts f := congrFun parts f

theorem keepsFrames_of_frames (same : t.frames = s.frames) : KeepsFrames s t := by
  have node : ∀ f, t.frame f = s.frame f := fun f => by rw [frame, same, frame]
  refine ⟨fun f hf => ?_, fun f => ?_, fun f _ _ => ?_, fun f _ => ?_, fun f => ?_⟩
  · rw [InStore, same]
    exact hf
  · rw [frameVectors, frameVectors, node]
  · rw [children, node, children]
  · rw [node]
  · rw [tableParts, tableParts, node]

theorem keepsFrames_addFrame (s : Store) {n : FrameNode} (plain : n.table = none)
    (bare : n.schema = []) : KeepsFrames s (s.addFrame n).2 := by
  have old : ∀ f, s.InStore (.frame f) → (s.addFrame n).2.frame f = s.frame f := by
    intro f hf
    rw [frame_addFrame_eq, if_neg (Nat.ne_of_lt hf)]
  have cases : ∀ f, (s.addFrame n).2.frame f = s.frame f ∨
      (s.addFrame n).2.frame f = n ∧ s.frame f = default := by
    intro f
    rw [frame_addFrame_eq]
    split
    case isTrue new => exact .inr ⟨rfl, get_eq_default new.ge⟩
    case isFalse => exact .inl rfl
  refine ⟨fun f hf => ?_, fun f => ?_, fun f hf _ => ?_, fun f hf => ?_, fun f => ?_⟩
  · exact hf.trans (by simp [addFrame])
  · rcases cases f with same | ⟨-, empty⟩
    · rw [frameVectors, frameVectors, same]
    · rw [frameVectors, empty]
      exact List.nil_sublist _
  · rw [children, old f hf, children]
  · rw [old f hf]
  · rcases cases f with same | ⟨new, empty⟩
    · rw [tableParts, tableParts, same]
    · rw [tableParts, tableParts, new, empty, plain, bare]
      rfl

theorem tableParts_updateAttributes (s : Store) (e : Element) (f : Attributes → Attributes) :
    (s.updateAttributes e f).tableParts = s.tableParts := by
  cases e with
  | frame g =>
      funext h
      rcases frame_updateFrame_cases s g h (fun n => { n with attributes := f n.attributes })
        with same | same
      · rw [tableParts, updateAttributes, same, tableParts]
      · rw [tableParts, updateAttributes, same, tableParts]
  | _ => rfl

theorem tableParts_setLocation (s : Store) (e : Element) (l : Location) :
    (s.setLocation e l).tableParts = s.tableParts := by
  cases e with
  | cell c => rfl
  | _ => exact tableParts_updateAttributes s _ _

theorem tableParts_setChildren (s : Store) (e : Element) (l : List Element) :
    (s.setChildren e l).tableParts = s.tableParts := by
  cases e with
  | frame g =>
      funext h
      rcases frame_updateFrame_cases s g h (fun n => { n with children := l }) with same | same
      · rw [tableParts, setChildren, same, tableParts]
      · rw [tableParts, setChildren, same, tableParts]
  | _ => rfl

/-- Space is made in frames only where there are gaps. -/
theorem gentle_keepsFrames : Gentle KeepsFrames where
  refl := .refl
  trans := .trans
  cell _ _ _ _ _ _ := keepsFrames_of_frames rfl
  vector _ _ _ _ := keepsFrames_of_frames rfl
  frame s _ plain bare := keepsFrames_addFrame s plain bare
  stack _ _ := keepsFrames_of_frames rfl
  attributes s e f := keepsFrames_of_alike (alike_updateAttributes s e f)
    (marks_updateAttributes s e f) (tableParts_updateAttributes s e f)
  children := by
    intro s t e l before _ refills
    have cases : ∀ f, (t.setChildren e l).children (.frame f) = t.children (.frame f) ∨
        (t.setChildren e l).children (.frame f) = l ∧ Refills (s.children (.frame f)) l := by
      intro f
      rcases children_setChildren_cases t e (.frame f) l with same | ⟨rfl, new⟩
      · exact .inl same
      · exact .inr ⟨new, refills rfl⟩
    have vectors : ∀ (s : Store) f, s.frameVectors f = (s.children (.frame f)).filterMap asVector? :=
      fun _ _ => rfl
    have axes := (Prod.mk.inj (marks_setChildren t e l)).1
    refine ⟨fun f hf => ?_, fun f => ?_, fun f hf gapless => ?_, fun f hf => ?_, fun f => ?_⟩
    · exact ((regroups_setChildren t e l).inStore _).2 (before.held f hf)
    · rcases cases f with same | ⟨new, fills⟩
      · rw [vectors (t.setChildren e l), same]
        exact before.vectors f
      · rw [vectors (t.setChildren e l), new]
        exact fills.vectors
    · rcases cases f with same | ⟨new, fills⟩
      · exact same.trans (before.gapless f hf gapless)
      · exact new.trans (fills.eq_of_gapless gapless)
    · exact (Option.some.inj (congrFun axes (.frame f))).trans (before.orientation f hf)
    · rw [tableParts_setChildren]
      exact before.parts f

end Store

open Store

theorem BuildM.layOut_keepsFrames (h : Runs (layOut root sheet outer) b r b') :
    KeepsFrames b.store b'.store := by
  simp only [layOut, runs_bind, runs_changeStore, runs_liftStore] at h
  obtain ⟨_, _, rfl, _, _, ⟨s₂, headers, rfl⟩, _, _, rfl, notices, _, ⟨s₄, spacing, rfl⟩, _, b₅,
    report, _, _, ⟨s₅, gaps, rfl⟩, _, _, rfl, rfl⟩ := h
  have stored : b₅.store = s₄ := store_of_noteAll report
  rw [stored] at gaps
  have named : (b.store.prepareHeaders root).frames = b.store.frames :=
    prepareHeaders_relates chains_part (fun _ _ _ => rfl) _ root
  have inserted : s₂.frames = (b.store.prepareHeaders root).frames := by
    have same : Retains Store.frames (StoreM.insertHeaders root) :=
      StoreM.insertHeaders_relates chains_part (fun _ _ _ _ _ => rfl) (fun _ _ _ => rfl) root
    exact same.of_leads headers
  have sized : (s₂.applySizes root).frames = s₂.frames :=
    applySizes_relates chains_part (fun _ _ _ _ => rfl) s₂ root
  apply (keepsFrames_of_frames (sized.trans (inserted.trans named))).trans
  apply ((StoreM.wrapSpacing_relates gentle_keepsFrames root).of_leads spacing).trans
  apply ((StoreM.explodeGaps_relates gentle_keepsFrames root).of_leads gaps).trans
  apply (keepsFrames_of_alike (moves_placeWithin _ s₅ root ⟨sheet, 0, 0⟩).toAlike
    (placeWithin_keeps marks_setLocation _ s₅ root _)
    (placeWithin_keeps tableParts_setLocation _ s₅ root _)).trans
  apply keepsFrames_of_frames
  exact cascadeWithin_relates chains_part (fun _ _ _ => rfl) _ _ root outer

/-! ## One layout -/

namespace Store

/-- Whether the names of the vectors of a frame differ, even when case is ignored, and stand in its
first row, if the frame has columns that are one cell wide. -/
structure Tabled (s : Store) (f : FrameId) : Prop where
  distinct : ((s.frameVectors f).filterMap s.nameKey?).Nodup
  columned : ∀ first last, s.frameRange? true f = some (first, last) →
    (s.frame f).orientation = .horizontal →
    (∀ c ∈ s.leaves (.frame f), (s.cell c).merge.cols = 1) → s.Columned f first last

theorem header_of_not_inStore (h : ¬s.InStore (.vector v)) : (s.vector v).header = none := by
  rw [vector, get_eq_default (Nat.le_of_not_lt h)]
  rfl

theorem inserted_of_not_inStore (h : ¬s.InStore (.vector v)) :
    (s.vector v).headerInserted = false := by
  rw [vector, get_eq_default (Nat.le_of_not_lt h)]
  rfl

theorem inStore_of_table (h : (s.frame f).table.isSome) : s.InStore (.frame f) := by
  by_contra outside
  rw [frame, get_eq_default (Nat.le_of_not_lt outside)] at h
  cases h

/-- Whether no header below an element is a cell yet. -/
def Uninserted (s : Store) (e : Element) : Prop :=
  ∀ v, Reach s e (.vector v) → (s.vector v).headerInserted = false

/-- Vectors that come to lie below an element later are new. -/
theorem Uninserted.of_reach (h : s.Uninserted root) (g : Evolves s t) (hroot : s.InStore root)
    (reach : Reach t root (.vector v)) : (s.vector v).headerInserted = false := by
  by_cases inside : s.InStore (.vector v)
  · exact h v (g.reflects _ _ hroot inside rfl reach)
  · exact inserted_of_not_inStore inside

theorem inserted_prepareHeaders (s : Store) (root : Element) (v : VectorId) :
    ((s.prepareHeaders root).vector v).headerInserted = (s.vector v).headerInserted := by
  have same := prepareHeaders_relates (R := fun s t : Store =>
    (fun v => (t.vector v).headerInserted) = fun v => (s.vector v).headerInserted) chains_part
    (fun s v header => ?_) s root
  · exact congrFun same v
  · funext w
    rcases vector_updateVector_cases s v w (fun n => { n with header := some header })
      with same | same
    · rw [setHeader, same]
    · rw [setHeader, same]

end Store

/-- When the headers below a root are prepared that has no cell twice after the layout, the vectors of
a table get names that differ. -/
theorem BuildM.layOut_named (wf : b.store.WellFormed) (hroot : b.store.InStore root)
    (h : Runs (layOut root sheet outer) b r b') (once : (b'.store.leaves root).Nodup)
    (reach : Reach b'.store root (.frame f)) (table : (b.store.frame f).table.isSome)
    (bearing : b'.store.Bearing f) :
    (b.store.prepareHeaders root).Named (b.store.frameVectors f) := by
  have grows := (layOut_laidOut wf hroot h).grows
  have acyclic := grows.wf.acyclic
  have frames := layOut_keepsFrames h
  have later : ∀ g v, v ∈ b.store.frameVectors g → .vector v ∈ b'.store.children (.frame g) :=
    fun g v hv => mem_frameVectors.1 ((frames.vectors g).subset hv)
  rw [prepareHeaders_eq]
  apply named_prepareEach
  · exact wf.acyclic.mem_subtree.2 (grows.reflects _ _ hroot (inStore_of_table table) rfl reach)
  · exact table
  · exact fun v hv => wf.closed _ _ (mem_frameVectors.1 hv)
  · exact (acyclic.nodup_frameVectors (acyclic.nodup_leaves once reach) bearing).sublist
      (frames.vectors f)
  · intro g hg v hv hv'
    have reach' := grows.reach root (.frame g) rfl (wf.acyclic.mem_subtree.1 hg)
    have cells := bearing v ((frames.vectors f).subset hv)
    exact Element.frame.inj
      (acyclic.parent_unique once reach' reach (later g v hv') (later f v hv) cells)

theorem BuildM.layOut_tabled (wf : b.store.WellFormed) (regular : b.store.Regular)
    (hroot : b.store.InStore root) (blank : b.store.Uninserted root)
    (h : Runs (layOut root sheet outer) b r b') (once : (b'.store.leaves root).Nodup)
    (reach : Reach b'.store root (.frame f)) (table : (b'.store.frame f).table.isSome)
    (bearing : b'.store.Bearing f) :
    b'.store.Tabled f ∧ ∀ v ∈ b.store.frameVectors f, (b'.store.vector v).header.isSome := by
  have laid := layOut_laidOut wf hroot h
  have acyclic := laid.grows.wf.acyclic
  have frames := layOut_keepsFrames h
  obtain ⟨-, headers, titles⟩ := layOut_titles wf hroot h
  have table₀ : (b.store.frame f).table.isSome := by
    rwa [← (Prod.mk.inj (frames.parts f)).1]
  have named := layOut_named wf hroot h once reach table₀ bearing
  have key : ∀ v, b'.store.nameKey? v = (b.store.prepareHeaders root).nameKey? v :=
    fun v => congrArg (Option.map Text.lowercase) (headers v)
  have old := inStore_of_table table₀
  -- Vectors that were not there before have no names.
  have known : ∀ v ∈ b'.store.frameVectors f, ∀ k, b'.store.nameKey? v = some k →
      v ∈ b.store.frameVectors f := by
    intro v hv k hk
    have inside : b.store.InStore (.vector v) := by
      by_contra outside
      have apart : ¬Reach b.store root (.vector v) :=
        fun reach => outside (wf.inStore_of_reach hroot reach)
      rw [key, nameKey?, vector_prepareHeaders_of_not_reach wf.acyclic apart,
        header_of_not_inStore outside] at hk
      cases hk
    apply regular.mem_frameVectors_of_reach
    exact laid.grows.reflects _ _ old inside rfl (reach_of_child (mem_frameVectors.1 hv))
  refine ⟨⟨?_, fun first last range horizontal single => ?_⟩, fun v hv => ?_⟩
  · have nodup := acyclic.nodup_frameVectors (acyclic.nodup_leaves once reach) bearing
    refine List.pairwise_filterMap.2 (nodup.imp_of_mem fun {v w} hv hw apart k hk k' hk' same => ?_)
    subst same
    have keys : (b.store.prepareHeaders root).nameKey? v =
        (b.store.prepareHeaders root).nameKey? w := by
      rw [← key, ← key, hk, hk']
    exact apart (List.inj_on_of_nodup_map named.distinct (known v hv k hk) (known w hw k hk') keys)
  · obtain ⟨l, hl⟩ := Option.isSome_iff_exists.1 (laid.located (.frame f) rfl reach)
    obtain ⟨regular', cells⟩ := layOut_regular wf regular hroot h
    refine regular'.columned acyclic horizontal single hl
      (fun x below => (laid.settled once).below x (reach.trans below)) (fun v hv => ?_) range
    have below := reach.trans (reach_of_child (mem_frameVectors.1 hv))
    refine ⟨titles v fun inserted => ?_, cells v below⟩
    rw [inserted_prepareHeaders, blank.of_reach laid.grows.toEvolves hroot below] at inserted
    cases inserted
  · rw [headers v]
    exact named.present v hv

/-! ## Changes elsewhere -/

namespace Store

/-- Whether nothing has changed that a frame shows as a table: neither its vectors with their headers
nor the cells in them. -/
structure SameTable (s t : Store) (f : FrameId) : Prop where
  orientation : (t.frame f).orientation = (s.frame f).orientation
  vectors : t.frameVectors f = s.frameVectors f
  header : ∀ v ∈ s.frameVectors f, (t.vector v).header = (s.vector v).header ∧
    (t.vector v).headerInserted = (s.vector v).headerInserted
  children : ∀ v ∈ s.frameVectors f, t.children (.vector v) = s.children (.vector v)
  cell : ∀ v ∈ s.frameVectors f, ∀ c, .cell c ∈ s.children (.vector v) →
    (t.cell c).location = (s.cell c).location ∧ (t.cell c).merge = (s.cell c).merge ∧
      t.headerText? c = s.headerText? c
  single : (∀ c ∈ t.leaves (.frame f), (t.cell c).merge.cols = 1) →
    ∀ c ∈ s.leaves (.frame f), (s.cell c).merge.cols = 1

theorem SameTable.headerCell?_eq (h : SameTable s t f) (hv : v ∈ s.frameVectors f) :
    t.headerCell? v = s.headerCell? v := by
  have children : (t.vector v).children = (s.vector v).children := h.children v hv
  simp only [headerCell?, children, (h.header v hv).2]

theorem SameTable.vectorRange?_eq (h : SameTable s t f) (hv : v ∈ s.frameVectors f)
    (includeHeaders : Bool) : t.vectorRange? includeHeaders v = s.vectorRange? includeHeaders v := by
  have children : (t.vector v).children = (s.vector v).children := h.children v hv
  have cells : t.vectorCells v = s.vectorCells v := by
    simp only [vectorCells, content, children, (h.header v hv).2]
  simp only [vectorRange?, cells, h.headerCell?_eq hv]
  cases begins : ((if includeHeaders then s.headerCell? v else none) <|>
      (s.vectorCells v).head?) with
  | none => rfl
  | some c =>
      have first := mem_children_of_begins begins
      have last : .cell ((s.vectorCells v).getLast?.getD c) ∈ s.children (.vector v) := by
        cases ends : (s.vectorCells v).getLast? with
        | none => exact first
        | some d => exact mem_children_of_vectorCells (List.mem_of_getLast? ends)
      simp only [Option.bind_eq_bind, Option.bind_some, (h.cell v hv c first).1,
        (h.cell v hv _ last).1]

theorem SameTable.frameRange?_eq (h : SameTable s t f) (includeHeaders : Bool) :
    t.frameRange? includeHeaders f = s.frameRange? includeHeaders f := by
  unfold frameRange?
  rw [h.vectors, mapM_congr fun v hv => h.vectorRange?_eq hv includeHeaders]

theorem SameTable.columned (h : SameTable s t f) {first last : Location}
    (columned : s.Columned f first last) : t.Columned f first last where
  width := by
    rw [h.vectors]
    exact columned.width
  titles i v text hv header := by
    rw [h.vectors] at hv
    have mem := List.mem_of_getElem? hv
    rw [(h.header v mem).1] at header
    obtain ⟨c, cell, merge, location, reads⟩ := columned.titles i v text hv header
    obtain ⟨location', merge', reads'⟩ := h.cell v mem c (mem_children_of_headerCell? cell)
    exact ⟨c, (h.headerCell?_eq mem).trans cell, merge'.trans merge, location'.trans location,
      reads'.trans reads⟩

theorem Tabled.congr (tabled : s.Tabled f) (h : SameTable s t f) : t.Tabled f where
  distinct := by
    have keys : (s.frameVectors f).filterMap t.nameKey? = (s.frameVectors f).filterMap s.nameKey? :=
      List.filterMap_congr fun v hv => congrArg (Option.map Text.lowercase) (h.header v hv).1
    rw [h.vectors, keys]
    exact tabled.distinct
  columned first last range horizontal single := by
    rw [h.frameRange?_eq] at range
    rw [h.orientation] at horizontal
    exact h.columned (tabled.columned first last range horizontal (h.single single))

/-- A frame without vectors covers no block. -/
theorem tabled_of_no_vectors (none : s.frameVectors f = []) : s.Tabled f where
  distinct := by simp [none]
  columned first last range := by
    simp [frameRange?, none] at range

/-- Where no cell of a table is below the roots that are laid out, the table stays as it is. -/
theorem Grows.sameTable {roots : List Element} (g : Grows roots s t) (wf : s.WellFormed)
    (keeps : KeepsTitles (fun v => ∃ r ∈ roots, Reach t r (.vector v)) s t)
    (frames : KeepsFrames s t) (hf : s.InStore (.frame f)) (own : Private t roots (.frame f))
    (bearing : t.Bearing f) (some : t.frameVectors f ≠ []) : SameTable s t f := by
  have acyclic := g.wf.acyclic
  have below : ∀ v ∈ t.frameVectors f, Reach t (.frame f) (.vector v) :=
    fun v hv => reach_of_child (mem_frameVectors.1 hv)
  have apart : ∀ v ∈ t.frameVectors f, ¬∃ r ∈ roots, Reach t r (.vector v) :=
    fun v hv => (own.below acyclic (below v hv)).not_reach acyclic (bearing v hv)
  obtain ⟨v₀, hv₀⟩ := List.exists_mem_of_ne_nil _ some
  have cells : t.leaves (.frame f) ≠ [] := by
    obtain ⟨c, hc⟩ := leaves_ne_nil_iff.1 (bearing v₀ hv₀)
    exact leaves_ne_nil_iff.2 ⟨c, acyclic.leaves_subset (below v₀ hv₀) hc⟩
  have same : t.children (.frame f) = s.children (.frame f) :=
    ((g.kept _ hf).resolve_right (own.not_reach acyclic cells)).1
  have vectors : t.frameVectors f = s.frameVectors f := congrArg (List.filterMap asVector?) same
  rw [vectors] at below apart
  have inside : ∀ v ∈ s.frameVectors f, s.InStore (.vector v) :=
    fun v hv => wf.closed _ _ (mem_frameVectors.1 hv)
  have children : ∀ v ∈ s.frameVectors f, t.children (.vector v) = s.children (.vector v) :=
    fun v hv => ((g.kept _ (inside v hv)).resolve_right (apart v hv)).1
  refine ⟨frames.orientation f hf, vectors, fun v hv => keeps.header v (apart v hv), children,
    fun v hv c hc => ?_, fun single c hc => ?_⟩
  · have held := wf.closed _ _ hc
    have reach : Reach t (.frame f) (.cell c) :=
      (below v hv).trans (reach_of_child (children v hv ▸ hc))
    have location := g.location?_bearing held (own.below acyclic reach)
      (by simp [leaves_cell acyclic])
    exact ⟨location, g.merge c held, keeps.text c held⟩
  · have held := wf.inStore_of_reach hf (wf.acyclic.mem_leaves.1 hc)
    rw [← g.merge c held]
    exact single c (g.leaves_subset wf _ hc)

end Store

end Spreadsheet
