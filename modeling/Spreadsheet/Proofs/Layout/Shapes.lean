import Spreadsheet.Proofs.Layout.Sheet

/-!
# What stands in a container

A vector holds no containers, a frame holds vectors across its own axis, and a stack holds no lone
cells; a header that has become a cell is the first child of its vector and covers one place.
Filling containers and laying them out keep it so, and after the layout of a tree no header in it
waits to become a cell.
-/

namespace Spreadsheet

/-- Whether a cell covers one place. -/
def CellNode.IsSingle (n : CellNode) : Prop :=
  n.merge = ⟨1, 1⟩

namespace Store

variable {s t u : Store} {e child : Element}

/-- Whether an element may stand in a container. -/
def Takes (s : Store) : Element → Element → Prop
  | .vector _, child => child.isContainer = false
  | .frame f, .vector v => s.orientation? (.vector v) = (s.orientation? (.frame f)).map .cross
  | .frame _, child => child.isContainer = false ∧ asCell? child = none
  | .stack _, child => asCell? child = none
  | _, _ => False

instance decidableTakes (s : Store) : (e child : Element) → Decidable (s.Takes e child)
  | .vector _, child => inferInstanceAs (Decidable (child.isContainer = false))
  | .frame f, .vector v =>
    inferInstanceAs
      (Decidable (s.orientation? (.vector v) = (s.orientation? (.frame f)).map .cross))
  | .frame _, .cell c => .isFalse fun h => by cases h.2
  | .frame _, .frame _ | .frame _, .stack _ => .isFalse fun h => by cases h.1
  | .frame _, .gap _ | .frame _, .expression _ | .frame _, .call _ => .isTrue ⟨rfl, rfl⟩
  | .stack _, child =>
    match child with
    | .cell _ => .isFalse fun h => by cases h
    | .vector _ | .frame _ | .stack _ | .gap _ | .expression _ | .call _ => .isTrue rfl
  | .cell _, _ | .gap _, _ | .expression _, _ | .call _, _ => .isFalse id

/-- Whether a vector begins with a header cell, if its header is inserted. -/
def HeadFirst (s : Store) (v : VectorId) : Prop :=
  (s.vector v).headerInserted = true →
    ∃ c, (s.children (.vector v)).head? = some (.cell c) ∧ (s.cell c).merge = ⟨1, 1⟩

/-- Whether all containers hold what they may hold. -/
structure Regular (s : Store) : Prop where
  closed : ∀ e, ∀ child ∈ s.children e, s.InStore child
  takes : ∀ e, ∀ child ∈ s.children e, s.Takes e child
  headFirst : ∀ v, s.HeadFirst v

/-- Whether the containers in use hold what they may hold, and only what is in use.  A vector whose
header is inserted begins with a marked cell.  What is not made yet counts as in use. -/
structure Orderly (use : Element → Prop) (mark : CellNode → Prop) (s : Store) : Prop where
  gaps : ∀ g, use (.gap g)
  unborn : ∀ e, ¬s.InStore e → use e
  closed : ∀ e, ∀ child ∈ s.children e, s.InStore child
  within : ∀ e, use e → ∀ child ∈ s.children e, use child
  takes : ∀ e, use e → ∀ child ∈ s.children e, s.Takes e child
  headFirst : ∀ v, use (.vector v) → (s.vector v).headerInserted = true →
    ∃ c, (s.children (.vector v)).head? = some (.cell c) ∧ mark (s.cell c)

/-- Whether an element is there and in use. -/
def Usable (use : Element → Prop) (s : Store) (e : Element) : Prop :=
  s.InStore e ∧ use e

/-- In a regular store everything is in order. -/
theorem regular_iff_orderly : s.Regular ↔ s.Orderly (fun _ => True) CellNode.IsSingle where
  mp h := ⟨fun _ => trivial, fun _ _ => trivial, h.closed, fun _ _ _ _ => trivial, fun e _ => h.takes e,
    fun v _ => h.headFirst v⟩
  mpr h := ⟨h.closed, fun e => h.takes e trivial, fun v => h.headFirst v trivial⟩

/-- Regularity can be computed where no header is inserted yet. -/
theorem regular_of_containers
    (holds : ∀ e ∈ s.containers, ∀ child ∈ s.children e, s.InStore child ∧ s.Takes e child)
    (blank : ∀ i < s.vectors.size, (s.vector ⟨i⟩).headerInserted = false) : s.Regular where
  closed e child below := (holds e (mem_containers below) child below).1
  takes e child below := (holds e (mem_containers below) child below).2
  headFirst v inserted := by
    by_cases inside : v.index < s.vectors.size
    · rw [blank v.index inside] at inserted
      cases inserted
    · rw [vector, get_eq_default (Nat.le_of_not_lt inside)] at inserted
      cases inserted

theorem Takes.congr (h : s.Takes e child) (he : t.orientation? e = s.orientation? e)
    (hc : t.orientation? child = s.orientation? child) : t.Takes e child := by
  cases e with
  | frame f =>
      cases child with
      | vector v => exact (hc.trans h).trans (congrArg _ he.symm)
      | _ => exact h
  | _ => exact h

/-- The axes of all containers and the headers of all vectors. -/
def marks (s : Store) : (Element → Option Orientation) × (VectorId → Option String × Bool) :=
  (s.orientation?, fun v => ((s.vector v).header, (s.vector v).headerInserted))

variable {use : Element → Prop} {mark : CellNode → Prop}

theorem Orderly.congr (h : s.Orderly use mark) (alike : Alike s t)
    (axes : t.orientation? = s.orientation?)
    (inserted : ∀ v, (t.vector v).headerInserted = (s.vector v).headerInserted)
    (marked : ∀ c, mark (s.cell c) → mark (t.cell c)) : t.Orderly use mark where
  gaps := h.gaps
  unborn e new := h.unborn e fun old => new ((alike.inStore e).2 old)
  closed e child below := (alike.inStore child).2 (h.closed e child (alike.children e ▸ below))
  within e used child below := h.within e used child (alike.children e ▸ below)
  takes e used child below :=
    (h.takes e used child (alike.children e ▸ below)).congr (congrFun axes e) (congrFun axes child)
  headFirst v used hv := by
    rw [inserted v] at hv
    obtain ⟨c, first, here⟩ := h.headFirst v used hv
    exact ⟨c, by rw [alike.children, first], marked c here⟩

/-! ## Steps -/

/-- What every step of a layout keeps, once the headers are cells. -/
structure Shapes (use : Element → Prop) (mark : CellNode → Prop) (s t : Store) : Prop where
  held : ∀ e, s.InStore e → t.InStore e
  orientation : ∀ e, s.InStore e → t.orientation? e = s.orientation? e
  marked : ∀ c, s.InStore (.cell c) → mark (s.cell c) → mark (t.cell c)
  header : ∀ v, (t.vector v).header = (s.vector v).header ∧
    (t.vector v).headerInserted = (s.vector v).headerInserted
  orderly : s.Orderly use mark → t.Orderly use mark

theorem Shapes.refl (s : Store) : Shapes use mark s s :=
  ⟨fun _ h => h, fun _ _ => rfl, fun _ _ => id, fun _ => ⟨rfl, rfl⟩, id⟩

theorem Shapes.trans (first : Shapes use mark s t) (second : Shapes use mark t u) :
    Shapes use mark s u where
  held e he := second.held e (first.held e he)
  orientation e he :=
    (second.orientation e (first.held e he)).trans (first.orientation e he)
  marked c hc here := second.marked c (first.held _ hc) (first.marked c hc here)
  header v :=
    ⟨(second.header v).1.trans (first.header v).1, (second.header v).2.trans (first.header v).2⟩
  orderly h := second.orderly (first.orderly h)

theorem Orderly.usable (orderly : s.Orderly use mark) {e child : Element} (used : use e)
    (below : child ∈ s.children e) : Usable use s child :=
  ⟨orderly.closed e child below, orderly.within e used child below⟩

theorem Usable.later {e : Element} (h : Usable use s e) (shapes : Shapes use mark s t) :
    Usable use t e :=
  ⟨shapes.held e h.1, h.2⟩

theorem Shapes.takes (h : Shapes use mark s t) (he : s.InStore e) (hc : s.InStore child)
    (takes : s.Takes e child) : t.Takes e child :=
  takes.congr (h.orientation e he) (h.orientation child hc)

theorem Shapes.pending (h : Shapes use mark s t) (v : VectorId) :
    t.pendingHeader (.vector v) = s.pendingHeader (.vector v) := by
  simp only [pendingHeader, (h.header v).1, (h.header v).2]

/-- A header cell stays first as long as the new children begin with it. -/
theorem Shapes.headFirst (h : Shapes use mark s t) (orderly : s.Orderly use mark) {v : VectorId}
    {l : List Element} (used : use (.vector v))
    (front : ∀ c, (s.children (.vector v)).head? = some (.cell c) → l.head? = some (.cell c))
    (inserted : (t.vector v).headerInserted = true) :
    ∃ c, l.head? = some (.cell c) ∧ mark (t.cell c) := by
  rw [(h.header v).2] at inserted
  obtain ⟨c, first, here⟩ := orderly.headFirst v used inserted
  have inside := orderly.closed _ _ (List.mem_of_head? first)
  exact ⟨c, front c first, h.marked c inside here⟩

theorem shapes_of_alike (alike : Alike s t) (same : t.marks = s.marks)
    (marked : ∀ c, mark (s.cell c) → mark (t.cell c)) : Shapes use mark s t := by
  obtain ⟨axes, headers⟩ := Prod.mk.inj same
  have header : ∀ v, (t.vector v).header = (s.vector v).header ∧
      (t.vector v).headerInserted = (s.vector v).headerInserted :=
    fun v => Prod.mk.inj (congrFun headers v)
  exact ⟨fun e he => (alike.inStore e).2 he, fun e _ => congrFun axes e, fun c _ => marked c,
    header, fun h => h.congr alike axes (fun v => (header v).2) marked⟩

theorem Alike.isSingle (alike : Alike s t) (c : CellId) (h : (s.cell c).IsSingle) :
    (t.cell c).IsSingle :=
  (alike.merge c).trans h

theorem marks_updateVector (s : Store) (v : VectorId) {f : VectorNode → VectorNode}
    (axis : ∀ n, (f n).orientation = n.orientation) (header : ∀ n, (f n).header = n.header)
    (inserted : ∀ n, (f n).headerInserted = n.headerInserted) :
    (s.updateVector v f).marks = s.marks := by
  have cases := fun w => vector_updateVector_cases s v w f
  apply Prod.ext
  · funext e
    cases e with
    | vector w => rcases cases w with h | h <;> simp [marks, orientation?, h, axis]
    | _ => rfl
  · funext w
    rcases cases w with h | h <;> simp [marks, h, header, inserted]

theorem marks_updateCell (s : Store) (c : CellId) (f : CellNode → CellNode) :
    (s.updateCell c f).marks = s.marks := by
  apply Prod.ext
  · funext e
    cases e <;> rfl
  · rfl

theorem marks_updateFrame (s : Store) (g : FrameId) {f : FrameNode → FrameNode}
    (axis : ∀ n, (f n).orientation = n.orientation) : (s.updateFrame g f).marks = s.marks := by
  apply Prod.ext
  · funext e
    cases e with
    | frame h => rcases frame_updateFrame_cases s g h f with h | h <;> simp [marks, orientation?, h, axis]
    | _ => rfl
  · rfl

theorem marks_updateStack (s : Store) (k : StackId) {f : StackNode → StackNode}
    (axis : ∀ n, (f n).orientation = n.orientation) : (s.updateStack k f).marks = s.marks := by
  apply Prod.ext
  · funext e
    cases e with
    | stack l => rcases stack_updateStack_cases s k l f with h | h <;> simp [marks, orientation?, h, axis]
    | _ => rfl
  · rfl

theorem marks_updateAttributes (s : Store) (e : Element) (f : Attributes → Attributes) :
    (s.updateAttributes e f).marks = s.marks := by
  cases e with
  | vector v => exact marks_updateVector s v (fun _ => rfl) (fun _ => rfl) fun _ => rfl
  | frame g => exact marks_updateFrame s g fun _ => rfl
  | stack k => exact marks_updateStack s k fun _ => rfl
  | _ => rfl

theorem shapes_updateAttributes (s : Store) (e : Element) (f : Attributes → Attributes) :
    Shapes use mark s (s.updateAttributes e f) := by
  apply shapes_of_alike (alike_updateAttributes s e f) (marks_updateAttributes s e f)
  intro c here
  cases e <;> exact here

/-! ## Sizes, places and styles -/

theorem marks_setLocation (s : Store) (e : Element) (l : Location) :
    (s.setLocation e l).marks = s.marks := by
  cases e with
  | cell c => exact marks_updateCell s c _
  | vector v => exact marks_updateAttributes s (.vector v) _
  | frame f => exact marks_updateAttributes s (.frame f) _
  | stack k => exact marks_updateAttributes s (.stack k) _
  | _ => rfl

theorem marks_setVectorSize (s : Store) (o : Orientation) (v : VectorId) (size : Float) :
    (s.setVectorSize o v size).marks = s.marks :=
  marks_updateVector s v (fun _ => rfl) (fun _ => rfl) fun _ => rfl

theorem shapes_applySizes (s : Store) (root : Element) :
    Shapes use CellNode.IsSingle s (s.applySizes root) :=
  shapes_of_alike (relabels_applySizes s root).toAlike
    (applySizes_relates chains_part marks_setVectorSize s root)
    (relabels_applySizes s root).toAlike.isSingle

theorem shapes_place (s : Store) (e : Element) (l : Location) :
    Shapes use CellNode.IsSingle s (s.place e l) :=
  shapes_of_alike (moves_placeWithin _ s e l).toAlike (placeWithin_keeps marks_setLocation _ s e l)
    (moves_placeWithin _ s e l).toAlike.isSingle

theorem shapes_cascade (s : Store) (e : Element) (outer : Inherited) :
    Shapes use CellNode.IsSingle s (s.cascade e outer) :=
  shapes_of_alike (moves_cascade s e outer).toAlike
    (cascadeWithin_relates chains_part (fun s c _ => marks_updateCell s c _) _ s e outer)
    (moves_cascade s e outer).toAlike.isSingle

/-! ## New nodes and new children -/

/-- New nodes, with nothing but what they may hold, and old ones as they were. -/
theorem shapes_of_extends (h : Extends s t)
    (axes : ∀ e, s.InStore e → t.orientation? e = s.orientation? e)
    (cells : ∀ c, s.InStore (.cell c) → t.cell c = s.cell c)
    (header : ∀ v, (t.vector v).header = (s.vector v).header ∧
      (t.vector v).headerInserted = (s.vector v).headerInserted)
    (within : ∀ e, ¬s.InStore e → ∀ child ∈ t.children e, use child)
    (takes : ∀ e, ¬s.InStore e → ∀ child ∈ t.children e, t.Takes e child) :
    Shapes use mark s t where
  held := h.held
  orientation := axes
  marked c hc here := (cells c hc).symm ▸ here
  header := header
  orderly orderly := by
    refine ⟨orderly.gaps, fun e new => orderly.unborn e fun old => new (h.held e old),
      fun e child below => ?_, fun e used child below => ?_, fun e used child below => ?_,
      fun v used inserted => ?_⟩
    · by_cases old : s.InStore e
      · rw [h.children e old] at below
        exact h.held child (orderly.closed e child below)
      · exact h.held child (h.fresh e child old below)
    · by_cases old : s.InStore e
      · rw [h.children e old] at below
        exact orderly.within e used child below
      · exact within e old child below
    · by_cases old : s.InStore e
      · rw [h.children e old] at below
        have inside := orderly.closed e child below
        exact (orderly.takes e used child below).congr (axes e old) (axes child inside)
      · exact takes e old child below
    · rw [(header v).2] at inserted
      obtain ⟨c, first, here⟩ := orderly.headFirst v used inserted
      have below := List.mem_of_head? first
      refine ⟨c, ?_, ?_⟩
      · rw [h.children _ (inStore_of_child below), first]
      · rwa [cells c (orderly.closed _ _ below)]

theorem children_setChildren_cases (s : Store) (e x : Element) (l : List Element) :
    (s.setChildren e l).children x = s.children x ∨
      x = e ∧ (s.setChildren e l).children x = l := by
  have regroups := regroups_setChildren s e l
  by_cases here : x = e
  · subst here
    by_cases hc : x.isContainer = true
    · by_cases hx : s.InStore x
      · exact .inr ⟨rfl, children_setChildren_self hx hc l⟩
      · have outside : ¬(s.setChildren x l).InStore x := fun inside => hx ((regroups.inStore x).1 inside)
        left
        rw [children_of_not_inStore hx, children_of_not_inStore outside]
    · left
      cases x <;> first | rfl | exact absurd rfl hc
  · exact .inl (regroups.others x here)

theorem marks_setChildren (s : Store) (e : Element) (l : List Element) :
    (s.setChildren e l).marks = s.marks := by
  cases e with
  | vector v => exact marks_updateVector s v (fun _ => rfl) (fun _ => rfl) fun _ => rfl
  | frame f => exact marks_updateFrame s f fun _ => rfl
  | stack k => exact marks_updateStack s k fun _ => rfl
  | _ => rfl

theorem shapes_setChildren (s : Store) (e : Element) {l : List Element}
    (holds : ∀ child ∈ l, s.InStore child ∧ s.Takes e child) (within : ∀ child ∈ l, use child)
    (head : ∀ v, e = .vector v → (s.vector v).headerInserted = true →
      ∃ c, l.head? = some (.cell c) ∧ mark (s.cell c)) :
    Shapes use mark s (s.setChildren e l) := by
  have regroups := regroups_setChildren s e l
  have cases := fun x => children_setChildren_cases s e x l
  have cells : ∀ c, (s.setChildren e l).cell c = s.cell c := fun c => by cases e <;> rfl
  obtain ⟨axes, headers⟩ := Prod.mk.inj (marks_setChildren s e l)
  have header : ∀ v, ((s.setChildren e l).vector v).header = (s.vector v).header ∧
      ((s.setChildren e l).vector v).headerInserted = (s.vector v).headerInserted :=
    fun v => Prod.mk.inj (congrFun headers v)
  refine ⟨fun x hx => (regroups.inStore x).2 hx, fun x _ => congrFun axes x,
    fun c _ here => (cells c).symm ▸ here, header, fun orderly => ?_⟩
  refine ⟨orderly.gaps, fun x new => orderly.unborn x fun old => new ((regroups.inStore x).2 old),
    fun x child below => ?_, fun x used child below => ?_, fun x used child below => ?_,
    fun v used inserted => ?_⟩
  · rw [regroups.inStore]
    rcases cases x with same | ⟨-, new⟩
    · exact orderly.closed x child (same ▸ below)
    · exact (holds child (new ▸ below)).1
  · rcases cases x with same | ⟨-, new⟩
    · exact orderly.within x used child (same ▸ below)
    · exact within child (new ▸ below)
  · suffices s.Takes x child from this.congr (congrFun axes x) (congrFun axes child)
    rcases cases x with same | ⟨rfl, new⟩
    · exact orderly.takes x used child (same ▸ below)
    · exact (holds child (new ▸ below)).2
  · rw [(header v).2] at inserted
    rcases cases (.vector v) with same | ⟨here, new⟩
    · obtain ⟨c, first, marked⟩ := orderly.headFirst v used inserted
      exact ⟨c, same ▸ first, (cells c).symm ▸ marked⟩
    · obtain ⟨c, first, marked⟩ := head v here.symm inserted
      exact ⟨c, by rw [new, first], (cells c).symm ▸ marked⟩

end Store

namespace StoreM

open Store

variable {use : Element → Prop} {mark : CellNode → Prop} {s t : Store}

theorem newCell_shapes (orderly : s.Orderly use mark) {n : CellNode}
    (merge : 1 ≤ n.merge.rows ∧ 1 ≤ n.merge.cols) {c : CellId}
    (h : Leads (newCell n) s c t) : Shapes use mark s t ∧ Usable use t (.cell c) := by
  obtain ⟨rfl, rfl⟩ := leads_modifyGet.1 h
  have bare : ∀ e, ¬s.InStore e → (s.addCell n).2.children e = [] := fun e new => by
    rw [children_addCell, children_of_not_inStore new]
  refine ⟨shapes_of_extends (adds_addCell s merge).toExtends ?_ ?_ (fun _ => ⟨rfl, rfl⟩) ?_ ?_,
    inStore_addCell s n, orderly.unborn _ (Nat.lt_irrefl _)⟩
  · intro e _
    cases e <;> rfl
  · intro d old
    rw [cell_addCell_eq, if_neg (Nat.ne_of_lt old)]
  · intro e new child below
    rw [bare e new] at below
    cases below
  · intro e new child below
    rw [bare e new] at below
    cases below

theorem newVector_shapes (orderly : s.Orderly use mark) {n : VectorNode}
    (usable : ∀ e ∈ n.children, Usable use s e) (lone : ∀ e ∈ n.children, e.isContainer = false)
    (plain : n.header = none) (blank : n.headerInserted = false) {v : VectorId}
    (h : Leads (newVector n) s v t) : Shapes use mark s t ∧ Usable use t (.vector v) ∧
      t.orientation? (.vector v) = some n.orientation := by
  obtain ⟨rfl, rfl⟩ := leads_modifyGet.1 h
  have below : ∀ e, ¬s.InStore e → ∀ child ∈ (s.addVector n).2.children e,
      child ∈ n.children ∧ ∃ w, e = .vector w := by
    intro e new child below
    cases e with
    | vector w =>
        rw [children, vector_addVector_eq] at below
        split at below
        case isTrue => exact ⟨below, w, rfl⟩
        case isFalse => exact absurd (inStore_of_child (s := s) (e := .vector w) below) new
    | _ => exact absurd (inStore_of_child (s := s) below) new
  refine ⟨shapes_of_extends (adds_addVector s fun e he => (usable e he).1).toExtends ?_
    (fun _ _ => rfl) ?_ (fun e new child hc => (usable child (below e new child hc).1).2) ?_,
    ⟨inStore_addVector s n, orderly.unborn _ (not_inStore_addVector s n)⟩, ?_⟩
  · intro e he
    cases e with
    | vector w => rw [orientation?, orientation?, vector_addVector_eq, if_neg (Nat.ne_of_lt he)]
    | _ => rfl
  · intro w
    rw [vector_addVector_eq]
    split
    case isTrue new =>
      have old : s.vector w = default := get_eq_default new.ge
      rw [old, plain, blank]
      exact ⟨rfl, rfl⟩
    case isFalse => exact ⟨rfl, rfl⟩
  · intro e new child hc
    obtain ⟨here, w, rfl⟩ := below e new child hc
    exact lone child here
  · rw [orientation?, vector_addVector_eq]
    exact congrArg (fun n => some (VectorNode.orientation n)) (if_pos rfl)

theorem newFrame_shapes (orderly : s.Orderly use mark) {n : FrameNode}
    (usable : ∀ e ∈ n.children, Usable use s e)
    (across : ∀ e ∈ n.children, ∃ v, e = .vector v ∧ s.orientation? e = some n.orientation.cross)
    {f : FrameId} (h : Leads (newFrame n) s f t) :
    Shapes use mark s t ∧ Usable use t (.frame f) := by
  obtain ⟨rfl, rfl⟩ := leads_modifyGet.1 h
  have below : ∀ e, ¬s.InStore e → ∀ child ∈ (s.addFrame n).2.children e,
      child ∈ n.children ∧ ∃ g, e = .frame g ∧ (s.addFrame n).2.frame g = n := by
    intro e new child below
    cases e with
    | frame g =>
        rw [children, frame_addFrame_eq] at below
        split at below
        case isTrue here => exact ⟨below, g, rfl, by rw [frame_addFrame_eq, if_pos here]⟩
        case isFalse => exact absurd (inStore_of_child (s := s) (e := .frame g) below) new
    | _ => exact absurd (inStore_of_child (s := s) below) new
  refine ⟨shapes_of_extends (adds_addFrame s fun e he => (usable e he).1).toExtends ?_
    (fun _ _ => rfl) (fun _ => ⟨rfl, rfl⟩)
    (fun e new child hc => (usable child (below e new child hc).1).2) ?_,
    inStore_addFrame s n, orderly.unborn _ (not_inStore_addFrame s n)⟩
  · intro e he
    cases e with
    | frame g => rw [orientation?, orientation?, frame_addFrame_eq, if_neg (Nat.ne_of_lt he)]
    | _ => rfl
  · intro e new child hc
    obtain ⟨here, g, rfl, made⟩ := below e new child hc
    obtain ⟨v, rfl, axis⟩ := across child here
    show s.orientation? (.vector v) = some (Orientation.cross _)
    rw [axis, made]

theorem newStack_shapes (orderly : s.Orderly use mark) {n : StackNode}
    (usable : ∀ e ∈ n.children, Usable use s e) (solid : ∀ e ∈ n.children, asCell? e = none)
    {k : StackId} (h : Leads (newStack n) s k t) :
    Shapes use mark s t ∧ Usable use t (.stack k) := by
  obtain ⟨rfl, rfl⟩ := leads_modifyGet.1 h
  have below : ∀ e, ¬s.InStore e → ∀ child ∈ (s.addStack n).2.children e,
      child ∈ n.children ∧ ∃ l, e = .stack l := by
    intro e new child below
    cases e with
    | stack l =>
        rw [children, stack_addStack_eq] at below
        split at below
        case isTrue => exact ⟨below, l, rfl⟩
        case isFalse => exact absurd (inStore_of_child (s := s) (e := .stack l) below) new
    | _ => exact absurd (inStore_of_child (s := s) below) new
  refine ⟨shapes_of_extends (adds_addStack s fun e he => (usable e he).1).toExtends ?_
    (fun _ _ => rfl) (fun _ => ⟨rfl, rfl⟩)
    (fun e new child hc => (usable child (below e new child hc).1).2) ?_,
    inStore_addStack s n, orderly.unborn _ (not_inStore_addStack s n)⟩
  · intro e he
    cases e with
    | stack l => rw [orientation?, orientation?, stack_addStack_eq, if_neg (Nat.ne_of_lt he)]
    | _ => rfl
  · intro e new child hc
    obtain ⟨here, l, rfl⟩ := below e new child hc
    exact solid child here

/-! ## Header cells -/

theorem orderly_updateVector_cons (orderly : s.Orderly use mark) {c : CellId}
    (hc : Usable use s (.cell c)) (marked : mark (s.cell c)) (v : VectorId)
    {f : VectorNode → VectorNode} (axis : ∀ n, (f n).orientation = n.orientation)
    (front : ∀ n, (f n).children = .cell c :: n.children) :
    (s.updateVector v f).Orderly use mark := by
  have cases := fun w => vector_updateVector_cases s v w f
  have axes : ∀ e, (s.updateVector v f).orientation? e = s.orientation? e := by
    intro e
    cases e with
    | vector w => rcases cases w with h | h <;> simp [orientation?, h, axis]
    | _ => rfl
  have source : ∀ e child, child ∈ (s.updateVector v f).children e →
      child ∈ s.children e ∨ child = .cell c ∧ ∃ w, e = .vector w := by
    intro e child below
    cases e with
    | vector w =>
        rcases cases w with h | h
        · exact .inl (by rwa [children, h] at below)
        · rw [children, h, front] at below
          rcases List.mem_cons.1 below with rfl | below
          · exact .inr ⟨rfl, w, rfl⟩
          · exact .inl below
    | _ => exact .inl below
  refine ⟨orderly.gaps,
    fun e new => orderly.unborn e fun old => new ((inStore_updateVector s v f e).2 old), fun e child below => ?_, fun e used child below => ?_, fun e used child below => ?_,
    fun w used inserted => ?_⟩
  · rw [inStore_updateVector]
    rcases source e child below with below | ⟨rfl, -⟩
    · exact orderly.closed e child below
    · exact hc.1
  · rcases source e child below with below | ⟨rfl, -⟩
    · exact orderly.within e used child below
    · exact hc.2
  · rcases source e child below with below | ⟨rfl, w, rfl⟩
    · exact (orderly.takes e used child below).congr (axes e) (axes child)
    · exact rfl
  · rcases cases w with h | h
    · rw [h] at inserted
      obtain ⟨d, first, here⟩ := orderly.headFirst w used inserted
      exact ⟨d, by rwa [children, h], here⟩
    · exact ⟨c, by rw [children, h, front]; rfl, marked⟩

section

variable (title : ∀ text style, mark { value := .text text, style, isHeader := true })

include title

theorem insertHeader_orderly {v : VectorId} (orderly : s.Orderly use mark)
    (hv : s.InStore (.vector v)) {r : Unit} (h : Leads (insertHeader v) s r t) :
    t.Orderly use mark ∧ (∀ e, s.InStore e → t.InStore e) ∧ t.pendingHeader (.vector v) = false ∧
      ∀ e, s.pendingHeader e = false → t.pendingHeader e = false := by
  simp only [insertHeader, leads_bind, leads_get] at h
  obtain ⟨_, _, ⟨rfl, rfl⟩, h⟩ := h
  split at h
  case h_1 =>
    simp only [leads_bind, leads_modify] at h
    obtain ⟨c, u, made, rfl⟩ := h
    obtain ⟨shapes, usable⟩ := newCell_shapes orderly ⟨Nat.le_refl 1, Nat.le_refl 1⟩ made
    have marked : mark (u.cell c) := by
      obtain ⟨rfl, rfl⟩ := leads_modifyGet.1 made
      rw [cell_addCell]
      exact title _ _
    have pending : ∀ n : VectorNode, (n.header.isSome && !true) = false := by simp
    refine ⟨orderly_updateVector_cons (shapes.orderly orderly) usable marked v (fun _ => rfl)
      fun _ => rfl, fun e he => ?_, ?_, fun e blank => ?_⟩
    · exact (inStore_updateVector u v _ e).2 (shapes.held e he)
    · have self := Table.get_update_self u.vectors
        (fun n => { n with children := .cell c :: n.children, headerInserted := true })
        (shapes.held _ hv)
      simp only [pendingHeader, vector, updateVector, self]
      exact pending _
    · cases e with
      | vector w =>
          have old := (shapes.pending w).trans blank
          rcases vector_updateVector_cases u v w
            (fun n => { n with children := .cell c :: n.children, headerInserted := true })
            with same | same
          · rwa [pendingHeader, same]
          · rw [pendingHeader, same]
            exact pending _
      | _ => rfl
  case h_2 waits =>
    obtain ⟨-, rfl⟩ := leads_pure.1 h
    refine ⟨orderly, fun _ he => he, ?_, fun _ blank => blank⟩
    rw [pendingHeader]
    rcases inserted : (s.vector v).headerInserted with _ | _
    · rcases header : (s.vector v).header with _ | text
      · rfl
      · exact absurd header (waits text inserted)
    · simp

theorem insertHeaders_orderly (orderly : s.Orderly use mark) {root : Element}
    (inside : ∀ e ∈ s.subtree root, s.InStore e) {r : Unit}
    (h : Leads (insertHeaders root) s r t) :
    t.Orderly use mark ∧ (∀ e ∈ s.subtree root, t.pendingHeader e = false) ∧
      ∀ e, s.pendingHeader e = false → t.pendingHeader e = false := by
  simp only [insertHeaders, leads_bind, leads_get] at h
  obtain ⟨_, _, ⟨rfl, rfl⟩, _, m, h, hm⟩ := h
  obtain ⟨-, rfl⟩ := leads_pure.1 hm
  have run := h.loop (fun t => t.Orderly use mark ∧ ∀ e, s.InStore e → t.InStore e)
    (fun e t => t.pendingHeader e = false) ⟨orderly, fun _ he => he⟩ ?_
  · exact ⟨run.1.1, run.2⟩
  · rintro e he m r t ⟨orderly, held⟩ step
    cases e with
    | vector v =>
        simp only [leads_bind, leads_pure] at step
        obtain ⟨_, m', first, rfl, rfl⟩ := step
        obtain ⟨orderly', held', done, others⟩ :=
          insertHeader_orderly title orderly (held _ (inside _ he)) first
        exact ⟨rfl, ⟨orderly', fun e he => held' e (held e he)⟩, done, others⟩
    | _ =>
        obtain ⟨rfl, rfl⟩ := leads_pure.1 step
        exact ⟨rfl, ⟨orderly, held⟩, rfl, fun _ h => h⟩

end

/-! ## Margins and padding -/

theorem eq_gap_of_mem_sideGap {z : Element} {size : Nat} {fill : Bool}
    (h : z ∈ sideGap size fill) : ∃ g, z = .gap g := by
  unfold sideGap at h
  split at h
  · cases h
  · exact ⟨_, List.mem_singleton.1 h⟩

theorem newStack_around (orderly : s.Orderly use mark) {inner : Element} (hi : Usable use s inner)
    (solid : asCell? inner = none) {n : StackNode} {before after : Nat} {fill : Bool}
    (hn : n.children = sideGap before fill ++ [inner] ++ sideGap after fill) {k : StackId}
    (h : Leads (newStack n) s k t) : Shapes use mark s t ∧ Usable use t (.stack k) := by
  have each : ∀ z ∈ n.children, (∃ g, z = .gap g) ∨ z = inner := by
    intro z hz
    simp only [hn, List.mem_append, List.mem_singleton] at hz
    rcases hz with (hz | hz) | hz
    · exact .inl (eq_gap_of_mem_sideGap hz)
    · exact .inr hz
    · exact .inl (eq_gap_of_mem_sideGap hz)
  apply newStack_shapes orderly _ _ h
  · intro z hz
    rcases each z hz with ⟨g, rfl⟩ | rfl
    · exact ⟨trivial, orderly.gaps g⟩
    · exact hi
  · intro z hz
    rcases each z hz with ⟨g, rfl⟩ | rfl
    · rfl
    · exact solid

theorem surround_shapes (orderly : s.Orderly use mark) {inner outer : Element}
    (hi : Usable use s inner) (solid : asCell? inner = none) {sides : Sides Nat} {fill : Bool}
    (h : Leads (surround inner sides fill) s outer t) :
    Shapes use mark s t ∧ Usable use t outer ∧ ∃ k, outer = .stack k := by
  simp only [surround, leads_bind, leads_get] at h
  obtain ⟨middle, s₁, first, _, _, ⟨rfl, rfl⟩, h⟩ := h
  obtain ⟨one, inside⟩ := newStack_around orderly hi solid rfl first
  split at h
  case isTrue =>
    simp only [leads_bind, leads_modify] at h
    obtain ⟨_, _, rfl, k, _, second, rfl, rfl⟩ := h
    have border : Shapes use mark s₁ _ :=
      shapes_updateAttributes s₁ inner fun a => { a with border := .unset }
    have front := one.trans border
    obtain ⟨two, around⟩ := newStack_around (front.orderly orderly) (inside.later border) rfl rfl
      second
    exact ⟨front.trans two, around, k, rfl⟩
  case isFalse =>
    simp only [leads_bind, leads_pure] at h
    obtain ⟨k, _, second, rfl, rfl⟩ := h
    obtain ⟨two, around⟩ := newStack_around (one.orderly orderly) inside rfl rfl second
    exact ⟨one.trans two, around, k, rfl⟩

/-- Whether an element is a child with space around it: the child itself, or, where there is room,
a stack in place of a container. -/
def Spaced (use : Element → Prop) (t : Store) (inFrame : Bool) (child outer : Element) : Prop :=
  Usable use t outer ∧ (outer = child ∨
    inFrame = false ∧ child.isContainer = true ∧ ∃ k, outer = .stack k)

theorem wrapChild_shapes (orderly : s.Orderly use mark) {inFrame : Bool} {child : Element}
    (hi : Usable use s child) {r : Element × List Notice}
    (h : Leads (wrapChild inFrame child) s r t) :
    Shapes use mark s t ∧ Spaced use t inFrame child r.1 := by
  have unchanged : Shapes use mark s s ∧ Spaced use s inFrame child child :=
    ⟨.refl s, hi, .inl rfl⟩
  simp only [wrapChild, leads_bind, leads_get] at h
  obtain ⟨_, _, ⟨rfl, rfl⟩, h⟩ := h
  split at h
  case h_1 =>
    obtain ⟨rfl, rfl⟩ := leads_pure.1 h
    exact unchanged
  case h_2 a found =>
    have container := isContainer_of_attributes? found
    have solid : asCell? child = none := by
      cases child <;> first | rfl | cases container
    split at h
    case isTrue =>
      obtain ⟨rfl, rfl⟩ := leads_pure.1 h
      exact unchanged
    case isFalse =>
      split at h
      case isTrue =>
        simp only [leads_bind, leads_get, leads_pure] at h
        obtain ⟨_, _, ⟨rfl, rfl⟩, rfl, rfl⟩ := h
        exact unchanged
      case isFalse room =>
        have padding : ∃ padded m, Shapes use mark s m ∧ Usable use m padded ∧
            asCell? padded = none ∧ (padded = child ∨ ∃ k, padded = .stack k) ∧ Leads (do
              let wrapped ← if a.margin.isZero = true then pure padded
                else surround padded a.margin.resolved false
              return (wrapped, [])) m r t := by
          split at h
          case isTrue =>
            obtain ⟨padded, m, step, h⟩ := leads_bind.1 h
            obtain ⟨rfl, rfl⟩ := leads_pure.1 step
            exact ⟨_, _, .refl _, hi, solid, .inl rfl, h⟩
          case isFalse =>
            obtain ⟨padded, m, step, h⟩ := leads_bind.1 h
            obtain ⟨shapes, inside, k, rfl⟩ := surround_shapes orderly hi solid step
            exact ⟨_, _, shapes, inside, rfl, .inr ⟨k, rfl⟩, h⟩
        obtain ⟨padded, m, one, inside, solid', stands, h⟩ := padding
        have small : inFrame = false := by simpa using room
        dsimp only at h
        split at h
        case isTrue =>
          simp only [leads_bind, leads_pure] at h
          obtain ⟨_, _, ⟨rfl, rfl⟩, rfl, rfl⟩ := h
          exact ⟨one, inside, stands.imp id fun stack => ⟨small, container, stack⟩⟩
        case isFalse =>
          simp only [leads_bind, leads_pure] at h
          obtain ⟨wrapped, _, step, rfl, rfl⟩ := h
          obtain ⟨two, outer, stack⟩ := surround_shapes (one.orderly orderly) inside solid' step
          exact ⟨one.trans two, outer, .inr ⟨small, container, stack⟩⟩

theorem wrapChildren_shapes {below : Element → StoreM (List Notice)} {inFrame : Bool}
    {children : List Element}
    (hbelow : ∀ child ∈ children, use child → ∀ s n t, s.Orderly use mark →
      Leads (below child) s n t → Shapes use mark s t)
    (orderly : s.Orderly use mark) (hi : ∀ child ∈ children, Usable use s child)
    {r : List Element × List Notice} (h : Leads (wrapChildren below inFrame children) s r t) :
    Shapes use mark s t ∧ List.Forall₂ (Spaced use t inFrame) children r.1 := by
  induction children generalizing s r with
  | nil =>
      obtain ⟨rfl, rfl⟩ := leads_pure.1 h
      exact ⟨.refl s, .nil⟩
  | cons child rest ih =>
      simp only [wrapChildren, leads_bind, leads_pure] at h
      obtain ⟨_, s₁, first, w, s₂, second, r', _, third, rfl, rfl⟩ := h
      have here := hi child (by simp)
      have one := hbelow child (by simp) here.2 s _ s₁ orderly first
      obtain ⟨two, spaced⟩ := wrapChild_shapes (one.orderly orderly) (here.later one) second
      have front := one.trans two
      obtain ⟨three, others⟩ := ih (fun c hc => hbelow c (List.mem_cons_of_mem _ hc))
        (front.orderly orderly) (fun c hc => (hi c (List.mem_cons_of_mem _ hc)).later front) third
      exact ⟨front.trans three, .cons ⟨spaced.1.later three, spaced.2⟩ others⟩

theorem wrapWithin_shapes (fuel : Nat) {e : Element} (orderly : s.Orderly use mark) (used : use e)
    {notices : List Notice} (h : Leads (wrapWithin fuel e) s notices t) : Shapes use mark s t := by
  induction fuel generalizing s e notices t with
  | zero =>
      obtain ⟨-, rfl⟩ := leads_pure.1 h
      exact .refl s
  | succ fuel ih =>
      simp only [wrapWithin] at h
      split at h
      case isTrue =>
        obtain ⟨-, rfl⟩ := leads_pure.1 h
        exact .refl s
      case isFalse container =>
        simp only [leads_bind, leads_get, leads_modify, leads_pure] at h
        obtain ⟨_, _, ⟨rfl, rfl⟩, r, u, wrapped, _, _, rfl, -, rfl⟩ := h
        obtain ⟨shapes, spaced⟩ := wrapChildren_shapes
          (fun child _ used s n t orderly => ih orderly used) orderly
          (fun child => orderly.usable used) wrapped
        refine shapes.trans (shapes_setChildren u e (fun w hw => ?_) (fun w hw => ?_) ?_)
        · obtain ⟨child, below, inside, stands⟩ := forall₂_right spaced hw
          have takes := orderly.takes e used child below
          refine ⟨inside.1, ?_⟩
          rcases stands with rfl | ⟨small, large, k, rfl⟩
          · exact shapes.takes (inStore_of_child below) (orderly.closed e _ below) takes
          · cases e with
            | vector v => exact absurd (takes.symm.trans large) (by decide)
            | frame f => cases small
            | stack l => rfl
            | _ => cases below
        · obtain ⟨child, -, inside, -⟩ := forall₂_right spaced hw
          exact inside.2
        · rintro v rfl
          apply shapes.headFirst orderly used
          intro c first
          generalize s.children (.vector v) = children, r.1 = wraps at first spaced
          cases spaced with
          | nil => cases first
          | cons here _ =>
              obtain rfl := Option.some.inj first
              obtain ⟨-, rfl | ⟨-, large, -⟩⟩ := here
              · rfl
              · cases large

/-! ## Gaps -/

theorem gapCells_shapes (orderly : s.Orderly use mark) (g : Gap) (count : Nat) {l : List Element}
    (h : Leads (gapCells g count) s l t) :
    Shapes use mark s t ∧ ∀ z ∈ l, Usable use t z ∧ z.isContainer = false := by
  have run := h.mapM (fun t => Shapes use mark s t)
    (fun _ z t => Usable use t z ∧ z.isContainer = false) (.refl s) ?_
  · exact ⟨run.1, fun z hz => (forall₂_right run.2.1 hz).elim fun _ found => found.2⟩
  · intro _ _ m z u shapes step
    simp only [leads_bind, leads_pure] at step
    obtain ⟨c, _, made, rfl, rfl⟩ := step
    obtain ⟨shapes', usable⟩ := newCell_shapes (shapes.orderly orderly)
      ⟨Nat.le_refl 1, Nat.le_refl 1⟩ made
    exact ⟨shapes.trans shapes', ⟨usable, rfl⟩, fun _ z old => ⟨old.1.later shapes', old.2⟩⟩

theorem gapVector_shapes (orderly : s.Orderly use mark) {g : Gap} {o : Orientation} {length : Nat}
    {v : VectorId} (h : Leads (gapVector g o length) s v t) :
    Shapes use mark s t ∧ Usable use t (.vector v) ∧ t.orientation? (.vector v) = some o := by
  simp only [gapVector, leads_bind] at h
  obtain ⟨cells, m, first, second⟩ := h
  obtain ⟨shapes, each⟩ := gapCells_shapes orderly g length first
  obtain ⟨shapes', usable, axis⟩ := newVector_shapes (shapes.orderly orderly)
    (fun z hz => (each z hz).1) (fun z hz => (each z hz).2) rfl rfl second
  exact ⟨shapes.trans shapes', usable, axis⟩

theorem gapVectors_shapes (orderly : s.Orderly use mark) (g : Gap) (o : Orientation)
    (length : Nat) {l : List Element} (h : Leads (gapVectors g o length) s l t) :
    Shapes use mark s t ∧
      ∀ z ∈ l, Usable use t z ∧ ∃ v, z = .vector v ∧ t.orientation? z = some o := by
  simp only [gapVectors, leads_bind, leads_pure] at h
  obtain ⟨vectors, _, made, rfl, rfl⟩ := h
  have run := made.mapM (fun t => Shapes use mark s t)
    (fun _ v t => Usable use t (.vector v) ∧ t.orientation? (.vector v) = some o) (.refl s) ?_
  · refine ⟨run.1, fun z hz => ?_⟩
    obtain ⟨v, hv, rfl⟩ := List.mem_map.1 hz
    obtain ⟨_, -, usable, axis⟩ := forall₂_right run.2.1 hv
    exact ⟨usable, v, rfl, axis⟩
  · intro _ _ m v u shapes step
    obtain ⟨shapes', here⟩ := gapVector_shapes (shapes.orderly orderly) step
    exact ⟨shapes.trans shapes', here, fun _ v old =>
      ⟨old.1.later shapes', (shapes'.orientation _ old.1.1).trans old.2⟩⟩

theorem gapBlock_shapes (orderly : s.Orderly use mark) (g : Gap) (o : Orientation) (across : Nat)
    {z : Element} (h : Leads (gapBlock g o across) s z t) :
    Shapes use mark s t ∧ Usable use t z ∧ ∃ f, z = .frame f := by
  simp only [gapBlock, leads_bind, leads_pure] at h
  obtain ⟨vectors, m, first, f, _, second, rfl, rfl⟩ := h
  obtain ⟨shapes, each⟩ := gapVectors_shapes orderly g o.cross across first
  obtain ⟨shapes', usable⟩ := newFrame_shapes (shapes.orderly orderly)
    (fun z hz => (each z hz).1) (fun z hz => (each z hz).2) second
  exact ⟨shapes.trans shapes', usable, f, rfl⟩

theorem replaceGaps_shapes (orderly : s.Orderly use mark) {e : Element} (used : use e)
    {replacement : Gap → StoreM (List Element)}
    (each : ∀ g m l t, Shapes use mark s m → Leads (replacement g) m l t →
      Shapes use mark m t ∧ ∀ z ∈ l, Usable use t z ∧ t.Takes e z)
    {r : Unit} (h : Leads (replaceGaps e replacement) s r t) : Shapes use mark s t := by
  simp only [replaceGaps, leads_bind, leads_get, leads_modify] at h
  obtain ⟨_, _, ⟨rfl, rfl⟩, lists, u, made, rfl⟩ := h
  have run := made.mapM (fun u => Shapes use mark s u)
    (fun child new u => (∀ z ∈ new, Usable use u z ∧ u.Takes e z) ∧
      ((∀ g, child ≠ .gap g) → new = [child])) (.refl s) ?_
  · obtain ⟨shapes, stands, -⟩ := run
    have holds : ∀ z ∈ lists.flatten, Usable use u z ∧ u.Takes e z := by
      intro z hz
      obtain ⟨new, hnew, hz⟩ := List.mem_flatten.1 hz
      obtain ⟨child, -, holds, -⟩ := forall₂_right stands hnew
      exact holds z hz
    refine shapes.trans (shapes_setChildren u e (fun z hz => ⟨(holds z hz).1.1, (holds z hz).2⟩)
      (fun z hz => (holds z hz).1.2) ?_)
    rintro v rfl
    apply shapes.headFirst orderly used
    intro c first
    generalize s.children (.vector v) = children at first stands
    cases stands with
    | nil => cases first
    | cons here _ =>
        obtain rfl := Option.some.inj first
        rw [here.2 fun _ same => by cases same]
        rfl
  · intro child below m new u shapes step
    have he := shapes.held e (inStore_of_child below)
    have hc := orderly.usable used below
    have next : Shapes use mark m u ∧ (∀ z ∈ new, Usable use u z ∧ u.Takes e z) ∧
        ((∀ g, child ≠ .gap g) → new = [child]) := by
      cases child with
      | gap g =>
          obtain ⟨shapes', holds⟩ := each g m new u shapes step
          exact ⟨shapes', holds, fun other => absurd rfl (other g)⟩
      | _ =>
          obtain ⟨rfl, rfl⟩ := leads_pure.1 step
          refine ⟨.refl m, fun z hz => ?_, fun _ => rfl⟩
          rw [List.mem_singleton.1 hz]
          exact ⟨hc.later shapes,
            shapes.takes (inStore_of_child below) hc.1 (orderly.takes e used _ below)⟩
    obtain ⟨shapes', holds⟩ := next
    exact ⟨shapes.trans shapes', holds, fun _ _ old => ⟨fun z hz =>
      ⟨(old.1 z hz).1.later shapes', shapes'.takes he (old.1 z hz).1.1 (old.1 z hz).2⟩, old.2⟩⟩

theorem fillUp_shapes (orderly : s.Orderly use mark) {g : Gap} {depth : Nat} {v : VectorId}
    (used : use (.vector v)) {r : Unit} (h : Leads (fillUp g depth v) s r t) :
    Shapes use mark s t := by
  simp only [fillUp, leads_bind, leads_get, leads_modify] at h
  obtain ⟨_, _, ⟨rfl, rfl⟩, filler, u, made, rfl⟩ := h
  obtain ⟨shapes, each⟩ := gapCells_shapes orderly g _ made
  have orderly' := shapes.orderly orderly
  rw [updateVector_append]
  have holds : ∀ z ∈ u.children (.vector v) ++ filler,
      Usable use u z ∧ u.Takes (.vector v) z := by
    intro z hz
    rcases List.mem_append.1 hz with below | new
    · exact ⟨orderly'.usable used below, orderly'.takes _ used z below⟩
    · exact each z new
  refine shapes.trans (shapes_setChildren u _ (fun z hz => ⟨(holds z hz).1.1, (holds z hz).2⟩)
    (fun z hz => (holds z hz).1.2) ?_)
  rintro w here
  obtain rfl : v = w := by simpa using here
  apply (Shapes.refl u).headFirst orderly' used
  intro c first
  rw [List.head?_append, first]
  rfl

theorem levelFrame_shapes (orderly : s.Orderly use mark) {f : FrameId}
    (hf : Usable use s (.frame f)) {r : Unit} (h : Leads (levelFrame f) s r t) :
    Shapes use mark s t := by
  simp only [levelFrame, leads_bind, leads_get] at h
  obtain ⟨_, _, ⟨rfl, rfl⟩, _, m, first, _, _, ⟨rfl, rfl⟩, _, u, loop, hu⟩ := h
  obtain ⟨-, rfl⟩ := leads_pure.1 hu
  have filled : Shapes use mark s m := by
    refine replaceGaps_shapes orderly hf.2 (fun g m l t shapes made => ?_) first
    obtain ⟨shapes', each⟩ := gapVectors_shapes (shapes.orderly orderly) g _ _ made
    refine ⟨shapes', fun z hz => ?_⟩
    obtain ⟨inside, v, rfl, axis⟩ := each z hz
    have own := congrArg (Option.map Orientation.cross)
      ((shapes.trans shapes').orientation _ hf.1)
    exact ⟨inside, axis.trans own.symm⟩
  have run := loop.loop (fun u => Shapes use mark m u) (fun _ _ => True) (.refl m) ?_
  · exact filled.trans run.1
  · rintro v hv a r b shapes step
    simp only [leads_bind, leads_pure] at step
    obtain ⟨_, _, step, rfl, rfl⟩ := step
    have used := (filled.orderly orderly).within _ hf.2 _ (mem_frameVectors.1 hv)
    have orderly' := shapes.orderly (filled.orderly orderly)
    exact ⟨rfl, shapes.trans (fillUp_shapes orderly' used step), trivial, fun _ h => h⟩

theorem explode_shapes (orderly : s.Orderly use mark) {e : Element} (he : Usable use s e)
    {r : Unit} (h : Leads (explode e) s r t) : Shapes use mark s t := by
  cases e with
  | vector v =>
      refine replaceGaps_shapes orderly he.2 (fun g m l t shapes made => ?_) h
      exact gapCells_shapes (shapes.orderly orderly) g _ made
  | frame f => exact levelFrame_shapes orderly he h
  | stack k =>
      simp only [explode, levelStack, leads_bind, leads_get] at h
      obtain ⟨_, _, ⟨rfl, rfl⟩, h⟩ := h
      refine replaceGaps_shapes orderly he.2 (fun g m l t shapes made => ?_) h
      simp only [leads_bind, leads_pure] at made
      obtain ⟨z, _, made, rfl, rfl⟩ := made
      obtain ⟨shapes', usable, f, rfl⟩ := gapBlock_shapes (shapes.orderly orderly) g _ _ made
      refine ⟨shapes', fun z hz => ?_⟩
      rw [List.mem_singleton.1 hz]
      exact ⟨usable, rfl⟩
  | _ =>
      obtain ⟨-, rfl⟩ := leads_pure.1 h
      exact .refl s

theorem explodeWithin_shapes (fuel : Nat) {e : Element} (orderly : s.Orderly use mark)
    (he : Usable use s e) {r : Unit} (h : Leads (explodeWithin fuel e) s r t) :
    Shapes use mark s t := by
  induction fuel generalizing s e r t with
  | zero =>
      obtain ⟨-, rfl⟩ := leads_pure.1 h
      exact .refl s
  | succ fuel ih =>
      simp only [explodeWithin, leads_bind, leads_get] at h
      obtain ⟨_, _, ⟨rfl, rfl⟩, _, m, loop, last⟩ := h
      have run := loop.loop (fun u => Shapes use mark s u) (fun _ _ => True) (.refl s) ?_
      · exact run.1.trans (explode_shapes (run.1.orderly orderly) (he.later run.1) last)
      · rintro child below a r b shapes step
        simp only [leads_bind, leads_pure] at step
        obtain ⟨_, _, first, rfl, rfl⟩ := step
        have usable := (orderly.usable he.2 below).later shapes
        exact ⟨rfl, shapes.trans (ih (shapes.orderly orderly) usable first), trivial, fun _ h => h⟩

end StoreM

/-! ## Headers before a layout -/

namespace Store

variable {s : Store}

theorem regular_setHeader (regular : s.Regular) (v : VectorId) (header : String) :
    (s.setHeader v header).Regular := by
  have cases := fun w => vector_updateVector_cases s v w fun n => { n with header := some header }
  have alike := (relabels_setHeader s v header).toAlike
  apply regular_iff_orderly.2
  apply (regular_iff_orderly.1 regular).congr alike _ _ alike.isSingle
  · funext e
    cases e with
    | vector w => rcases cases w with h | h <;> simp [setHeader, orientation?, h]
    | _ => rfl
  · intro w
    rcases cases w with h | h <;> simp [setHeader, h]

theorem regular_prepareHeaders (regular : s.Regular) (root : Element) :
    (s.prepareHeaders root).Regular := by
  have chains : Chains fun s t : Store => s.Regular → t.Regular :=
    ⟨fun _ => id, fun first second regular => second (first regular)⟩
  exact prepareHeaders_relates chains (fun _ v header regular => regular_setHeader regular v header)
    s root regular

end Store

/-! ## A whole layout -/

open Store

/-- A layout keeps what containers may hold, and leaves no header in the tree that is not a cell. -/
theorem pendingHeader_of_grows {s t : Store} {root : Element} (g : Grows [root] s t)
    (hroot : s.InStore root)
    (blank : ∀ v, Reach s root (.vector v) → t.pendingHeader (.vector v) = false)
    (others : ∀ v, s.pendingHeader (.vector v) = false → t.pendingHeader (.vector v) = false) :
    ∀ v, Reach t root (.vector v) → t.pendingHeader (.vector v) = false := by
  intro v reach
  by_cases old : s.InStore (.vector v)
  · exact blank v (g.reflects _ _ hroot old rfl reach)
  · apply others
    rw [pendingHeader, vector, get_eq_default (Nat.le_of_not_lt old)]
    rfl

theorem BuildM.layOut_regular {b b' : Build} (wf : b.store.WellFormed) (regular : b.store.Regular)
    {root : Element} (hroot : b.store.InStore root) {sheet : String} {outer : Inherited} {r : Unit}
    (h : Runs (BuildM.layOut root sheet outer) b r b') :
    b'.store.Regular ∧ ∀ v, Reach b'.store root (.vector v) →
      b'.store.pendingHeader (.vector v) = false := by
  simp only [BuildM.layOut, runs_bind, BuildM.runs_changeStore, BuildM.runs_liftStore] at h
  obtain ⟨_, _, rfl, _, _, ⟨s₂, headers, rfl⟩, _, _, rfl, notices, _, ⟨s₄, spacing, rfl⟩, _, b₅,
    report, _, _, ⟨s₅, gaps, rfl⟩, _, _, rfl, rfl⟩ := h
  have prepared := relabels_prepareHeaders b.store root
  have orderly₁ := regular_iff_orderly.1 (regular_prepareHeaders regular root)
  generalize b.store.prepareHeaders root = s₁ at *
  have wf₁ := prepared.toAlike.wellFormed wf
  have hroot₁ := (prepared.inStore root).2 hroot
  have inserted := StoreM.insertHeaders_grows wf₁ hroot₁ headers
  obtain ⟨orderly₂, cells, blank⟩ := StoreM.insertHeaders_orderly (fun _ _ => rfl) orderly₁
    (fun e he => wf₁.inStore_of_reach hroot₁ (wf₁.acyclic.mem_subtree.1 he)) headers
  have hroot₂ := inserted.held _ hroot₁
  have blank₂ := pendingHeader_of_grows inserted hroot₁
    (fun v reach => cells _ (wf₁.acyclic.mem_subtree.2 reach)) fun v => blank _
  -- From here on vectors keep their headers, and new ones have none.
  have sized : Shapes (fun _ => True) CellNode.IsSingle s₂ (s₂.applySizes root) :=
    shapes_applySizes s₂ root
  have grown : Grows [root] s₂ (s₂.applySizes root) :=
    (relabels_applySizes s₂ root).grows inserted.wf
  have stored : b₅.store = s₄ := BuildM.store_of_noteAll report
  rw [stored] at gaps
  obtain ⟨_, _, ⟨rfl, rfl⟩, wrapped⟩ := leads_bind.1 spacing
  have spaced := StoreM.wrapWithin_shapes _ (sized.orderly orderly₂) trivial wrapped
  have grown := grown.trans_same (StoreM.wrapSpacing_grows grown.wf (grown.held _ hroot₂) spacing)
  obtain ⟨_, _, ⟨rfl, rfl⟩, exploded⟩ := leads_bind.1 gaps
  have front := sized.trans spaced
  have filled := StoreM.explodeWithin_shapes _ (front.orderly orderly₂)
    ⟨front.held _ hroot₂, trivial⟩ exploded
  have grown := grown.trans_same
    (StoreM.explodeGaps_gapFree grown.wf (grown.held _ hroot₂) gaps).1
  have placed := place_spec grown.wf (grown.held _ hroot₂) ⟨sheet, 0, 0⟩
  have grown := grown.trans_same (placed.1.trans_same
    ((moves_cascade _ root outer).grows placed.1.wf fun _ h => h.elim))
  have shapes := (front.trans filled).trans ((shapes_place s₅ root ⟨sheet, 0, 0⟩).trans
    (shapes_cascade _ root outer))
  refine ⟨regular_iff_orderly.2 (shapes.orderly orderly₂), ?_⟩
  apply pendingHeader_of_grows grown hroot₂
  · intro v reach
    rw [shapes.pending]
    exact blank₂ v reach
  · intro v none
    rwa [shapes.pending]

end Spreadsheet
