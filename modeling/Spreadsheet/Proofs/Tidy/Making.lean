import Spreadsheet.Proofs.Tidy.Store
import Spreadsheet.Resolve.Grid

/-!
# Making what is tidy

Copies of what is in use, and cells, vectors and frames of formulas that point at what is in use, hold
what they may hold.  No frame is made on the way but the one that is asked for.
-/

namespace Spreadsheet

/-- Whether the nodes that a formula holds have a property. -/
def Formula.Meets (P : Node → Prop) (f : Formula) : Prop :=
  ∀ n ∈ f.nodes, P n

/-- Whether the nodes that the formulas of a series hold have a property. -/
def Series.Meets (P : Node → Prop) (t : Series) : Prop :=
  ∀ f ∈ t.items, f.Meets P

/-- Whether the nodes that the formulas of a grid hold have a property, and the series of a table lie
across its axis. -/
def Grid.Meets (P : Node → Prop) : Grid → Prop
  | .scalar f => f.Meets P
  | .series t => t.Meets P
  | .table vectors o => ∀ t ∈ vectors, t.Meets P ∧ t.orientation = o.cross

theorem Formula.Meets.imp {P Q : Node → Prop} {f : Formula} (h : f.Meets P)
    (imp : ∀ n, P n → Q n) : f.Meets Q :=
  fun n hn => imp n (h n hn)

namespace Store

variable {use : Node → Prop} {s t u : Store} {e : Element}

/-- Whether a tidy store came about by making nodes, none of them frames. -/
structure Supplies (use : Node → Prop) (s t : Store) : Prop where
  tidy : t.Tidy use
  grown : Grown s t
  frames : t.frames = s.frames

theorem Supplies.refl (h : s.Tidy use) : Supplies use s s :=
  ⟨h, .refl s, rfl⟩

theorem Supplies.trans (first : Supplies use s t) (second : Supplies use t u) :
    Supplies use s u :=
  ⟨second.tidy, first.grown.trans second.grown, second.frames.trans first.frames⟩

/-- Whether a tidy store came about by making an element.  If it is a frame, it is the only new frame,
and nothing holds it. -/
structure Delivers (use : Node → Prop) (s t : Store) (e : Element) : Prop where
  tidy : t.Tidy use
  grown : Grown s t
  there : e.Meets t.Has
  frames : ∀ f, t.Has (.frame f) → s.Has (.frame f) ∨ e = .frame f
  loose : ∀ f, e = .frame f → ∀ n, use n → .frame f ∉ t.holds n

theorem Supplies.delivers (h : Supplies use s t) (there : e.Meets t.Has)
    (other : ∀ f, e ≠ .frame f) : Delivers use s t e where
  tidy := h.tidy
  grown := h.grown
  there := there
  frames f there := .inl (by rwa [Has, ← h.frames])
  loose f same := absurd same (other f)

theorem Supplies.delivers_cell (h : Supplies use s t) {c : CellId}
    (there : t.AtHand use (.cell c)) : Delivers use s t (.cell c) :=
  h.delivers (by rintro _ ⟨⟩; exact there.1) (by nofun)

theorem Supplies.delivers_vector (h : Supplies use s t) {v : VectorId}
    (there : t.AtHand use (.vector v)) : Delivers use s t (.vector v) :=
  h.delivers (by rintro _ ⟨⟩; exact there.1) (by nofun)

theorem Tidy.formula (h : s.Tidy use) {c : CellId} (used : use (.cell c)) :
    ∀ f ∈ (s.cell c).formula, f.Meets (s.AtHand use) := by
  intro f hf n hn
  apply h.holds (.cell c) used n
  rw [Store.holds, Option.mem_def.1 hf]
  exact hn

theorem Tidy.cells (h : s.Tidy use) {v : VectorId} (used : use (.vector v)) :
    ∀ c ∈ s.vectorCells v, s.AtHand use (.cell c) := by
  intro c hc
  obtain ⟨child, below, same⟩ := List.mem_filterMap.1 hc
  cases child with
  | cell d =>
      cases same
      have inside : .cell c ∈ s.children (.vector v) := List.mem_of_mem_drop below
      exact h.child (e := .vector v) (by rintro _ ⟨⟩; exact used) inside _ rfl
  | _ => cases same

theorem Tidy.vectors (h : s.Tidy use) {f : FrameId} (used : use (.frame f)) :
    ∀ v ∈ s.frameVectors f, s.AtHand use (.vector v) ∧
      (s.vector v).orientation = (s.frame f).orientation.cross := by
  intro v hv
  obtain ⟨child, below, same⟩ := List.mem_filterMap.1 hv
  cases child with
  | vector w =>
      cases same
      have frame : Element.Meets use (.frame f) := by
        rintro _ ⟨⟩
        exact used
      exact ⟨h.child frame below _ rfl, Option.some.inj (h.takes (.frame f) frame _ below)⟩
  | _ => cases same

end Store

namespace StoreM

open Store

variable {use : Node → Prop} {s t : Store} {α β : Type}

theorem newCell_supplies (h : s.Tidy use) {n : CellNode}
    (merge : 1 ≤ n.merge.rows ∧ 1 ≤ n.merge.cols)
    (formula : ∀ f ∈ n.formula, f.Meets (s.AtHand use)) {c : CellId}
    (run : Leads (newCell n) s c t) : Supplies use s t ∧ t.AtHand use (.cell c) := by
  obtain ⟨rfl, rfl⟩ := leads_modifyGet.1 run
  have born := born_addCell s n
  refine ⟨⟨h.born born ?_ ?_ ?_ ?_, born.grown, rfl⟩, born.there, h.unborn _ born.new⟩
  · rintro d ⟨⟩
    rwa [cell_addCell]
  · intro m hm
    rw [Store.holds, cell_addCell] at hm
    cases pointed : n.formula with
    | none => simp [pointed] at hm
    | some f =>
        rw [pointed] at hm
        exact formula f pointed m hm
  · intro child below
    cases below
  · rintro v ⟨⟩

theorem newVector_supplies (h : s.Tidy use) {n : VectorNode} (blank : n.headerInserted = false)
    (flat : ∀ child ∈ n.children, child.isContainer = false)
    (inside : ∀ child ∈ n.children, child.Meets (s.AtHand use)) {v : VectorId}
    (run : Leads (newVector n) s v t) :
    Supplies use s t ∧ t.AtHand use (.vector v) ∧ t.vector v = n := by
  obtain ⟨rfl, rfl⟩ := leads_modifyGet.1 run
  have born := born_addVector s n
  have self : (s.addVector n).2.vector (s.addVector n).1 = n :=
    (vector_addVector_eq s n _).trans (if_pos rfl)
  refine ⟨⟨h.born born ?_ ?_ ?_ ?_, born.grown, rfl⟩, ⟨born.there, h.unborn _ born.new⟩, self⟩
  · rintro c ⟨⟩
  · intro m hm
    rw [Store.holds, self] at hm
    obtain ⟨child, below, hm⟩ := List.mem_filterMap.1 hm
    exact inside child below m hm
  · intro child below
    exact flat child (children_addVector_self s n ▸ below)
  · rintro w ⟨⟩
    rw [self, blank]

theorem newStack_supplies (h : s.Tidy use) {n : StackNode} (empty : n.children = []) {k : StackId}
    (run : Leads (newStack n) s k t) : Supplies use s t := by
  obtain ⟨rfl, rfl⟩ := leads_modifyGet.1 run
  have born := born_addStack s n
  have self : (s.addStack n).2.stack (s.addStack n).1 = n :=
    (stack_addStack_eq s n _).trans (if_pos rfl)
  have childless : (s.addStack n).2.children (.stack (s.addStack n).1) = [] :=
    (congrArg StackNode.children self).trans empty
  refine ⟨h.bare born (by nofun) (by nofun) (fun m hm => ?_) childless, born.grown, rfl⟩
  rw [Store.holds, self, empty] at hm
  cases hm

theorem newFrame_delivers (h : s.Tidy use) {n : FrameNode}
    (vectors : ∀ child ∈ n.children, ∃ v, child = .vector v ∧ s.AtHand use (.vector v) ∧
      (s.vector v).orientation = n.orientation.cross) {f : FrameId}
    (run : Leads (newFrame n) s f t) : Delivers use s t (.frame f) := by
  obtain ⟨rfl, rfl⟩ := leads_modifyGet.1 run
  have born := born_addFrame s n
  have self : (s.addFrame n).2.frame (s.addFrame n).1 = n :=
    (frame_addFrame_eq s n _).trans (if_pos rfl)
  have holds : ∀ m ∈ (s.addFrame n).2.holds (.frame (s.addFrame n).1), s.AtHand use m := by
    intro m hm
    rw [Store.holds, self] at hm
    obtain ⟨child, below, hm⟩ := List.mem_filterMap.1 hm
    obtain ⟨v, rfl, inside, -⟩ := vectors child below
    exact Option.some.inj hm ▸ inside
  refine ⟨h.born born ?_ holds ?_ ?_, born.grown, ?_, fun g there => ?_, ?_⟩
  · rintro c ⟨⟩
  · intro child below
    obtain ⟨v, rfl, inside, across⟩ := vectors child (children_addFrame_self s n ▸ below)
    have frame : (s.addFrame n).2.orientation? (.frame (s.addFrame n).1) = some n.orientation :=
      congrArg (fun n => some (FrameNode.orientation n)) self
    exact (congrArg some across).trans (congrArg (Option.map Orientation.cross) frame).symm
  · rintro v ⟨⟩
  · rintro _ ⟨⟩
    exact born.there
  · rcases (born.has _).1 there with old | new
    · exact .inl old
    · exact .inr (by rw [Node.frame.inj new])
  · rintro g ⟨⟩ m used below
    by_cases same : m = .frame (s.addFrame n).1
    · exact born.new (holds _ (same ▸ below)).1
    · rw [(born.left m same).holds] at below
      exact born.new (h.holds m used _ below).1

/-- Making something for every item of a list. -/
theorem supplies_mapM {f : α → StoreM β} {Q : Store → β → Prop} {l : List α}
    (stays : ∀ s t b, Grown s t → Q s b → Q t b)
    (each : ∀ a ∈ l, ∀ u b v, Supplies use s u → Leads (f a) u b v → Supplies use u v ∧ Q v b)
    (h : s.Tidy use) {bs : List β} (run : Leads (l.mapM f) s bs t) :
    Supplies use s t ∧ ∀ b ∈ bs, Q t b := by
  have step : ∀ a ∈ l, ∀ u b v, Supplies use s u → Leads (f a) u b v →
      Supplies use s v ∧ Q v b ∧ ∀ (_ : α) b', Q u b' → Q v b' := by
    intro a ha u b v supplies run
    obtain ⟨further, known⟩ := each a ha u b v supplies run
    exact ⟨supplies.trans further, known, fun _ b' => stays u v b' further.grown⟩
  obtain ⟨supplies, made, -⟩ := run.mapM (Supplies use s) (fun _ b t => Q t b) (.refl h) step
  exact ⟨supplies, fun b hb => (forall₂_right made hb).elim fun _ both => both.2⟩

theorem newFormulaCell_supplies (h : s.Tidy use) {f : Formula} (meets : f.Meets (s.AtHand use))
    {c : CellId} (run : Leads (newFormulaCell f) s c t) :
    Supplies use s t ∧ t.AtHand use (.cell c) := by
  cases f with
  | literal value => exact newCell_supplies h ⟨le_refl 1, le_refl 1⟩ (by rintro _ ⟨⟩) run
  | _ =>
      refine newCell_supplies h ⟨le_refl 1, le_refl 1⟩ ?_ run
      rintro _ ⟨⟩
      exact meets

theorem copyCell_supplies (h : s.Tidy use) {c d : CellId} (used : use (.cell c))
    (run : Leads (copyCell c) s d t) : Supplies use s t ∧ t.AtHand use (.cell d) := by
  obtain ⟨_, _, got, made⟩ := leads_bind.1 run
  obtain ⟨rfl, rfl⟩ := leads_get.1 got
  refine newCell_supplies h ?_ ?_ made
  · exact h.wf.merges c
  · exact h.formula used

/-- A vector of new cells. -/
theorem vectorOfCells_supplies (h : s.Tidy use) {f : α → StoreM CellId} {l : List α}
    (each : ∀ a ∈ l, ∀ u c v, Supplies use s u → Leads (f a) u c v →
      Supplies use u v ∧ v.AtHand use (.cell c))
    {o : Orientation} {header : Option String} {v : VectorId}
    (run : Leads (do
      let cells ← l.mapM f
      newVector { orientation := o, children := cells.map .cell, header }) s v t) :
    Supplies use s t ∧ t.AtHand use (.vector v) ∧ (t.vector v).orientation = o := by
  obtain ⟨cells, m, first, second⟩ := leads_bind.1 run
  obtain ⟨supplies, made⟩ := supplies_mapM (fun _ _ _ grown there => there.later grown) each h first
  have cell : ∀ child ∈ cells.map Element.cell, ∃ c ∈ cells, child = .cell c := by
    intro child below
    obtain ⟨c, hc, rfl⟩ := List.mem_map.1 below
    exact ⟨c, hc, rfl⟩
  obtain ⟨further, there, self⟩ := newVector_supplies supplies.tidy rfl
    (fun child below => by obtain ⟨c, -, rfl⟩ := cell child below; rfl)
    (fun child below => by
      obtain ⟨c, hc, rfl⟩ := cell child below
      rintro _ ⟨⟩
      exact made c hc) second
  exact ⟨supplies.trans further, there, by rw [self]⟩

theorem vectorOf_supplies (h : s.Tidy use) {series : Series} (meets : series.Meets (s.AtHand use))
    {v : VectorId} (run : Leads (vectorOf series) s v t) :
    Supplies use s t ∧ t.AtHand use (.vector v) ∧
      (t.vector v).orientation = series.orientation :=
  vectorOfCells_supplies h (fun f hf _ _ _ supplies => newFormulaCell_supplies supplies.tidy
    ((meets f hf).imp fun _ there => there.later supplies.grown)) run

theorem copyVector_supplies (h : s.Tidy use) {v w : VectorId} (used : use (.vector v))
    (run : Leads (copyVector v) s w t) : Supplies use s t ∧ t.AtHand use (.vector w) ∧
      (t.vector w).orientation = (s.vector v).orientation := by
  obtain ⟨_, _, got, run⟩ := leads_bind.1 run
  obtain ⟨rfl, rfl⟩ := leads_get.1 got
  obtain ⟨_, _, got, run⟩ := leads_bind.1 run
  obtain ⟨rfl, rfl⟩ := leads_get.1 got
  exact vectorOfCells_supplies h (fun c hc _ _ _ supplies =>
    copyCell_supplies supplies.tidy (h.cells used c hc).2) run

/-- A frame of new vectors. -/
theorem frameOfVectors_delivers (h : s.Tidy use) {f : α → StoreM VectorId} {l : List α}
    {o : Orientation} (each : ∀ a ∈ l, ∀ u v w, Supplies use s u → Leads (f a) u v w →
      Supplies use u w ∧ w.AtHand use (.vector v) ∧ (w.vector v).orientation = o.cross)
    {g : FrameId} (run : Leads (do
      let vectors ← l.mapM f
      newFrame { orientation := o, children := vectors.map .vector }) s g t) :
    Delivers use s t (.frame g) := by
  obtain ⟨vectors, m, first, second⟩ := leads_bind.1 run
  obtain ⟨supplies, made⟩ := supplies_mapM
    (Q := fun t v => t.AtHand use (.vector v) ∧ (t.vector v).orientation = o.cross)
    (fun s t v grown both => ⟨both.1.later grown, by
      rw [show t.vector v = s.vector v from grown.left (.vector v) both.1.1, both.2]⟩) each h first
  have delivers := newFrame_delivers supplies.tidy (fun child below => by
    obtain ⟨v, hv, rfl⟩ := List.mem_map.1 below
    exact ⟨v, rfl, made v hv⟩) second
  refine ⟨delivers.tidy, supplies.grown.trans delivers.grown, delivers.there, fun k there => ?_,
    delivers.loose⟩
  exact (delivers.frames k there).imp (fun old => by rwa [Has, ← supplies.frames]) id

theorem copyFrame_delivers (h : s.Tidy use) {f g : FrameId} (used : use (.frame f))
    (run : Leads (copyFrame f) s g t) : Delivers use s t (.frame g) := by
  obtain ⟨_, _, got, run⟩ := leads_bind.1 run
  obtain ⟨rfl, rfl⟩ := leads_get.1 got
  obtain ⟨_, _, got, run⟩ := leads_bind.1 run
  obtain ⟨rfl, rfl⟩ := leads_get.1 got
  refine frameOfVectors_delivers h (fun v hv u w x supplies run => ?_) run
  obtain ⟨there, across⟩ := h.vectors used v hv
  obtain ⟨further, made, axis⟩ := copyVector_supplies supplies.tidy there.2 run
  refine ⟨further, made, axis.trans ?_⟩
  rw [show u.vector v = s.vector v from supplies.grown.left (.vector v) there.1, across]

theorem elementOf_delivers (h : s.Tidy use) {grid : Grid} (meets : grid.Meets (s.AtHand use))
    {e : Element} (run : Leads (elementOf grid) s e t) : Delivers use s t e := by
  cases grid with
  | scalar f =>
      obtain ⟨c, _, made, run⟩ := leads_bind.1 run
      obtain ⟨rfl, rfl⟩ := leads_pure.1 run
      obtain ⟨supplies, there⟩ := newFormulaCell_supplies h meets made
      exact supplies.delivers_cell there
  | series items =>
      obtain ⟨v, _, made, run⟩ := leads_bind.1 run
      obtain ⟨rfl, rfl⟩ := leads_pure.1 run
      obtain ⟨supplies, there, -⟩ := vectorOf_supplies h meets made
      exact supplies.delivers_vector there
  | table vectors o =>
      rw [elementOf, leads_bind] at run
      obtain ⟨ids, m, first, run⟩ := run
      obtain ⟨g, _, second, run⟩ := leads_bind.1 run
      obtain ⟨rfl, rfl⟩ := leads_pure.1 run
      refine frameOfVectors_delivers h (fun series hs u v w supplies run => ?_)
        (leads_bind.2 ⟨ids, m, first, second⟩)
      obtain ⟨items, across⟩ := meets series hs
      have later : series.Meets (u.AtHand use) := fun f hf =>
        (items f hf).imp fun _ there => there.later supplies.grown
      obtain ⟨further, made, axis⟩ := vectorOf_supplies supplies.tidy later run
      exact ⟨further, made, axis.trans across⟩

theorem promote_supplies (h : s.Tidy use) {c : CellId} {o : Orientation}
    (there : s.AtHand use (.cell c)) {v : VectorId} (run : Leads (promote c o) s v t) :
    Supplies use s t ∧ t.AtHand use (.vector v) ∧ (t.vector v).orientation = o := by
  obtain ⟨_, _, got, made⟩ := leads_bind.1 run
  obtain ⟨rfl, rfl⟩ := leads_get.1 got
  obtain ⟨supplies, here, self⟩ := newVector_supplies h rfl
    (fun child below => by obtain rfl := List.mem_singleton.1 below; rfl)
    (fun child below => by
      obtain rfl := List.mem_singleton.1 below
      rintro _ ⟨⟩
      exact there) made
  exact ⟨supplies, here, by rw [self]⟩

end StoreM

end Spreadsheet
