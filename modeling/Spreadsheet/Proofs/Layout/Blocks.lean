import Spreadsheet.Proofs.Formula.Pointing
import Spreadsheet.Proofs.Layout.Ranges

/-!
# The block that a stack covers

The corners of a stack are its first and its last cell in order.  They enclose all of its cells when
the stack is even: all children of a container are equally wide, no container is empty, no cell is
merged, and all vectors begin with as many header cells along one axis.
-/

namespace Spreadsheet

theorem Location.ext_position (o : Orientation) {a b : Location} (sheet : a.sheet = b.sheet)
    (along : o.position a = o.position b) (across : o.cross.position a = o.cross.position b) :
    a = b := by
  obtain ⟨_, _, _⟩ := a
  obtain ⟨_, _, _⟩ := b
  cases o <;> simp_all [Orientation.position, Orientation.cross]

namespace Store

variable {s : Store} {axis : Orientation} {headers : Nat} {e : Element} {l : Location}

/-- The last place of the area that an extent covers from a location on. -/
def lastPlace (l : Location) (e : Extent) : Location :=
  ⟨l.sheet, l.row + e.rows - 1, l.col + e.cols - 1⟩

theorem position_lastPlace (o : Orientation) (l : Location) (e : Extent) :
    o.position (lastPlace l e) = o.position l + o.along e - 1 := by
  cases o <;> rfl

/-- Whether the cells of a tree fill its area, all vectors beginning with a number of header cells
along an axis. -/
structure Even (s : Store) (axis : Orientation) (headers : Nat) (e : Element) : Prop where
  /-- Nothing is left to be replaced, and no container is empty. -/
  solid : ∀ x ∈ s.subtree e, x.isSolid = true ∧ (x.isContainer = true → s.children x ≠ [])
  single : ∀ c ∈ s.leaves e, (s.cell c).merge = ⟨1, 1⟩
  level : ∀ x ∈ s.subtree e, ∀ o ∈ s.orientation? x, ∀ child ∈ s.children x,
    o.across (s.extent child) = o.across (s.extent x)
  /-- Behind its header cells, every vector has cells that are no headers. -/
  headed : ∀ v ∈ (s.subtree e).filterMap asVector?,
    (∀ c ∈ ((s.children (.vector v)).take headers).filterMap asCell?, (s.cell c).isHeader = true) ∧
    (∀ c ∈ ((s.children (.vector v)).drop headers).filterMap asCell?, (s.cell c).isHeader = false) ∧
    (s.children (.vector v)).drop headers ≠ [] ∧ (headers ≠ 0 → (s.vector v).orientation = axis)

theorem Even.child (h : s.Even axis headers e) (acyclic : s.Acyclic) {child : Element}
    (below : child ∈ s.children e) : s.Even axis headers child := by
  have subtree : ∀ x ∈ s.subtree child, x ∈ s.subtree e := by
    intro x hx
    rw [acyclic.mem_subtree] at hx ⊢
    exact (reach_of_child below).trans hx
  refine ⟨fun x hx => h.solid x (subtree x hx), fun c hc => h.single c ?_,
    fun x hx => h.level x (subtree x hx), fun v hv => h.headed v ?_⟩
  · exact acyclic.leaves_subset (reach_of_child below) hc
  · obtain ⟨x, hx, same⟩ := List.mem_filterMap.1 hv
    exact List.mem_filterMap.2 ⟨x, subtree x hx, same⟩

/-- The cells below an element that are no headers. -/
abbrev bodyCells (s : Store) (e : Element) : List CellId :=
  s.blockCells e false

theorem Acyclic.bodyCells_container (h : s.Acyclic) (container : e.isContainer = true) :
    s.bodyCells e = (s.children e).flatMap s.bodyCells := by
  have own : asCell? e = none := by
    cases e <;> first | rfl | cases container
  unfold bodyCells blockCells
  rw [h.leaves_eq, own, Option.toList_none, List.nil_append, List.filter_flatMap]

/-- How the cells of an element lie that is placed: the first and the last one in the corners of the
part behind the headers, and all others between them. -/
structure Filled (s : Store) (axis : Orientation) (headers : Nat) (e : Element) (l : Location) :
    Prop where
  first : ∃ c, (s.bodyCells e).head? = some c ∧
    (s.cell c).location = some (along axis l headers)
  last : ∃ c, (s.bodyCells e).getLast? = some c ∧
    (s.cell c).location = some (lastPlace l (s.extent e))
  between : s.Encloses (along axis l headers) (lastPlace l (s.extent e)) (s.bodyCells e)

/-! ## Vectors -/

theorem exists_cells {children : List Element} (h : ∀ x ∈ children, ∃ c, x = .cell c) :
    ∃ cells : List CellId, children = cells.map .cell := by
  induction children with
  | nil => exact ⟨[], rfl⟩
  | cons x rest ih =>
      obtain ⟨c, rfl⟩ := h x (by simp)
      obtain ⟨cells, rfl⟩ := ih fun y hy => h y (List.mem_cons_of_mem _ hy)
      exact ⟨c :: cells, rfl⟩

theorem filterMap_asCell? (cells : List CellId) : (cells.map Element.cell).filterMap asCell? = cells := by
  induction cells with
  | nil => rfl
  | cons c rest ih => exact congrArg (c :: ·) ih

/-- A container is as long as its children together, unless a header is to be inserted. -/
theorem Acyclic.along_extent (h : s.Acyclic) {o : Orientation} (ho : s.orientation? e = some o)
    (blank : s.pendingHeader e = false) :
    o.along (s.extent e) = s.lengthAlong o (s.children e) := by
  rw [h.extent_eq]
  cases e with
  | vector v =>
      cases ho
      simp [extentOver, blank, stacked, lengthAlong, Function.comp_def]
  | frame f =>
      cases ho
      simp [extentOver, stacked, lengthAlong, Function.comp_def]
  | stack k =>
      cases ho
      simp [extentOver, stacked, lengthAlong, Function.comp_def]
  | _ => cases ho

/-- The cells of a vector in which all are single and headers come first. -/
theorem Even.vector_cells {v : VectorId} (h : s.Even axis headers (.vector v)) (acyclic : s.Acyclic)
    (regular : s.Regular) :
    ∃ cells : List CellId, s.children (.vector v) = cells.map .cell ∧
      s.bodyCells (.vector v) = cells.drop headers ∧ headers < cells.length ∧
      ∀ c ∈ cells, s.extent (.cell c) = ⟨1, 1⟩ := by
  have here : Element.vector v ∈ s.subtree (.vector v) := acyclic.mem_subtree.2 .root
  obtain ⟨cells, children⟩ : ∃ cells : List CellId, s.children (.vector v) = cells.map .cell := by
    apply exists_cells
    intro x below
    have lone : x.isContainer = false := regular.takes _ x below
    have solid := (h.solid x (acyclic.mem_subtree.2 (reach_of_child below))).1
    cases x with
    | cell c => exact ⟨c, rfl⟩
    | vector v => cases lone
    | frame f => cases lone
    | stack k => cases lone
    | _ => cases solid
  have leaves : s.leaves (.vector v) = cells := by
    have single : ∀ c, s.leaves (.cell c) = [c] := leaves_cell acyclic
    rw [acyclic.leaves_eq, children]
    simp [asCell?, List.flatMap_map, single]
  obtain ⟨front, back, some, -⟩ := h.headed v (List.mem_filterMap.2 ⟨_, here, rfl⟩)
  rw [children, ← List.map_take, filterMap_asCell?] at front
  rw [children, ← List.map_drop, filterMap_asCell?] at back
  rw [children, ← List.map_drop, ne_eq, List.map_eq_nil_iff, List.drop_eq_nil_iff, not_le] at some
  refine ⟨cells, children, ?_, some, fun c hc => ?_⟩
  · unfold bodyCells blockCells
    rw [leaves, ← List.take_append_drop headers cells, List.filter_append]
    rw [List.filter_eq_nil_iff.2 fun c hc => by simp [front c hc],
      List.filter_eq_self.2 fun c hc => by simp [back c hc], List.nil_append,
      List.take_append_drop]
  · rw [acyclic.extent_eq, extentOver]
    exact h.single c (leaves ▸ hc)

theorem lengthAlong_cells {cells : List CellId} (single : ∀ c ∈ cells, s.extent (.cell c) = ⟨1, 1⟩)
    (o : Orientation) : s.lengthAlong o (cells.map .cell) = cells.length := by
  induction cells with
  | nil => rfl
  | cons c rest ih =>
      have one : o.along ⟨1, 1⟩ = 1 := by cases o <;> rfl
      rw [List.map_cons, lengthAlong_cons, single c (by simp), one,
        ih fun d hd => single d (List.mem_cons_of_mem _ hd), List.length_cons, Nat.add_comm]

theorem Even.filled_vector {v : VectorId} (h : s.Even axis headers (.vector v))
    (acyclic : s.Acyclic) (regular : s.Regular) (arranged : Arranged s (.vector v))
    (blank : s.pendingHeader (.vector v) = false) (hl : s.location? (.vector v) = some l) :
    s.Filled axis headers (.vector v) l := by
  have here : Element.vector v ∈ s.subtree (.vector v) := acyclic.mem_subtree.2 .root
  obtain ⟨cells, children, body, more, single⟩ := h.vector_cells acyclic regular
  obtain ⟨-, -, -, axis_eq⟩ := h.headed v (List.mem_filterMap.2 ⟨_, here, rfl⟩)
  let o := (s.vector v).orientation
  have corner : along axis l headers = along o l headers := by
    by_cases none : headers = 0
    · rw [none]
      cases axis <;> cases o <;> rfl
    · rw [← axis_eq none]
  have length : o.along (s.extent (.vector v)) = cells.length := by
    rw [acyclic.along_extent (o := o) rfl blank, children, lengthAlong_cells single]
  have width : o.across (s.extent (.vector v)) = 1 := by
    have first : cells[0] ∈ cells := List.getElem_mem (by omega)
    rw [← h.level _ here o rfl (.cell cells[0]) (by rw [children]; exact List.mem_map_of_mem first),
      single _ first]
    cases o <;> rfl
  have place : ∀ i, ∀ hi : i < cells.length, (s.cell cells[i]).location = some (along o l i) := by
    intro i hi
    have split : s.children (.vector v) =
        (cells.take i).map .cell ++ .cell cells[i] :: (cells.drop (i + 1)).map .cell := by
      rw [children, ← List.map_cons, ← List.map_append, ← List.drop_eq_getElem_cons hi,
        List.take_append_drop]
    have := arranged.location_child rfl hl split (by simp [leaves_cell acyclic])
    rwa [lengthAlong_cells fun c hc => single c (List.mem_of_mem_take hc), List.length_take,
      Nat.min_eq_left hi.le] at this
  have last : lastPlace l (s.extent (.vector v)) = along o l (cells.length - 1) := by
    apply Location.ext_position o
    · rfl
    · rw [position_lastPlace, length, position_along]
      omega
    · have across : o.cross.along (s.extent (.vector v)) = 1 := width
      rw [position_lastPlace, across, position_cross_along, Nat.add_sub_cancel]
  refine ⟨⟨cells[headers], ?_, ?_⟩, ⟨cells[cells.length - 1], ?_, ?_⟩, fun c hc => ?_⟩
  · rw [body, List.head?_drop, List.getElem?_eq_getElem more]
  · rw [corner]
    exact place headers more
  · rw [body, List.getLast?_drop, if_neg (not_le.2 more), List.getLast?_eq_getElem?,
      List.getElem?_eq_getElem (by omega)]
  · rw [last]
    exact place _ (by omega)
  · obtain ⟨i, hi, rfl⟩ := List.mem_iff_getElem.1 (body ▸ hc)
    rw [List.length_drop] at hi
    rw [List.getElem_drop]
    refine ⟨_, place _ (by omega), ?_⟩
    rw [corner, last, Location.between_iff o]
    simp only [position_along, position_cross_along, sheet_along, true_and, le_refl, and_true]
    omega

/-! ## Containers of containers -/

theorem lengthAlong_nil (s : Store) (o : Orientation) : s.lengthAlong o [] = 0 :=
  rfl

theorem along_zero (o : Orientation) (l : Location) : along o l 0 = l := by
  cases o <;> rfl

theorem along_comm (o axis : Orientation) (l : Location) (n m : Nat) :
    along axis (along o l n) m = along o (along axis l m) n := by
  cases o <;> cases axis <;>
    simp [along, Location.offset, Orientation.step, Nat.add_right_comm]

/-- A container whose children are filled and as wide as it is, is filled. -/
theorem filled_of_children (acyclic : s.Acyclic) {o : Orientation} (ho : s.orientation? e = some o)
    (blank : s.pendingHeader e = false) (some : s.children e ≠ [])
    (level : ∀ child ∈ s.children e, o.across (s.extent child) = o.across (s.extent e))
    (each : ∀ before child after, s.children e = before ++ child :: after →
      s.Filled axis headers child (along o l (s.lengthAlong o before))) :
    s.Filled axis headers e l := by
  have container : e.isContainer = true := by
    obtain ⟨x, below⟩ := List.exists_mem_of_ne_nil _ some
    exact isContainer_of_child below
  have body := acyclic.bodyCells_container container
  have length := acyclic.along_extent ho blank
  refine ⟨?_, ?_, fun c hc => ?_⟩
  · obtain ⟨x, rest, split⟩ := List.exists_cons_of_ne_nil some
    obtain ⟨c, first, place⟩ := (each [] x rest split).first
    refine ⟨c, ?_, ?_⟩
    · rw [body, split, List.flatMap_cons, List.head?_append, first, Option.some_or]
    · rwa [lengthAlong_nil, along_zero] at place
  · obtain ⟨front, x, split⟩ := (List.eq_nil_or_concat' (s.children e)).resolve_left some
    obtain ⟨c, last, place⟩ := (each front x [] split).last
    have wide : o.cross.along (s.extent x) = o.cross.along (s.extent e) :=
      level x (by simp [split])
    refine ⟨c, ?_, ?_⟩
    · rw [body, split, List.flatMap_append, List.flatMap_singleton, List.getLast?_append, last,
        Option.some_or]
    · rw [place]
      congr 1
      apply Location.ext_position o
      · rfl
      · rw [position_lastPlace, position_lastPlace, position_along, length, split,
          lengthAlong_append, lengthAlong_cons, lengthAlong_nil]
        omega
      · rw [position_lastPlace, position_lastPlace, position_cross_along, wide]
  · rw [body] at hc
    obtain ⟨x, below, hc⟩ := List.mem_flatMap.1 hc
    obtain ⟨before, after, split⟩ := List.append_of_mem below
    obtain ⟨place, found, inside⟩ := (each before x after split).between c hc
    refine ⟨place, found, ?_⟩
    have wide : o.cross.along (s.extent x) = o.cross.along (s.extent e) := level x below
    have total : o.along (s.extent e) =
        s.lengthAlong o before + (o.along (s.extent x) + s.lengthAlong o after) := by
      rw [length, split, lengthAlong_append, lengthAlong_cons]
    rw [Location.between_iff o] at inside ⊢
    rw [along_comm] at inside
    simp only [position_lastPlace, position_along, position_cross_along, sheet_along] at inside ⊢
    refine ⟨inside.1, ?_, ?_⟩ <;> omega

theorem isContainer_of_takes {x : Element} (takes : s.Takes e x) (solid : x.isSolid = true)
    (group : ∀ v, e ≠ .vector v) : x.isContainer = true := by
  cases e with
  | vector v => exact absurd rfl (group v)
  | frame f =>
      cases x with
      | vector v => rfl
      | cell c => cases takes.2
      | frame f => rfl
      | stack k => rfl
      | _ => cases solid
  | stack k =>
      cases x with
      | cell c => cases takes
      | vector v => rfl
      | frame f => rfl
      | stack k => rfl
      | _ => cases solid
  | _ => exact takes.elim

/-- An even element is filled where it is placed. -/
theorem Regular.filled (regular : s.Regular) (acyclic : s.Acyclic) (even : s.Even axis headers e)
    (container : e.isContainer = true) (arranged : ∀ x, Reach s e x → Arranged s x)
    (blank : ∀ x, Reach s e x → s.pendingHeader x = false) :
    s.leaves e ≠ [] ∧ ∀ l, s.location? e = some l → s.Filled axis headers e l := by
  induction e using acyclic.induction with
  | step e ih =>
      have here : e ∈ s.subtree e := acyclic.mem_subtree.2 .root
      have some := (even.solid e here).2 container
      by_cases vector : ∃ v, e = .vector v
      · obtain ⟨v, rfl⟩ := vector
        refine ⟨?_, fun l hl => even.filled_vector acyclic regular (arranged _ .root) (blank _ .root) hl⟩
        obtain ⟨cells, -, body, more, -⟩ := even.vector_cells acyclic regular
        intro none
        have : s.bodyCells (.vector v) = [] := by rw [bodyCells, blockCells, none, List.filter_nil]
        rw [this] at body
        have := List.drop_eq_nil_iff.1 body.symm
        omega
      · have inner : ∀ x ∈ s.children e, x.isContainer = true := by
          intro x below
          have solid := (even.solid x (acyclic.mem_subtree.2 (reach_of_child below))).1
          exact isContainer_of_takes (regular.takes e x below) solid fun v same => vector ⟨v, same⟩
        have filled := fun x (below : x ∈ s.children e) => ih x below (even.child acyclic below)
          (inner x below) (fun y reach => arranged y ((reach_of_child below).trans reach))
          fun y reach => blank y ((reach_of_child below).trans reach)
        obtain ⟨o, ho⟩ := orientation?_of_isContainer (s := s) container
        constructor
        · obtain ⟨x, below⟩ := List.exists_mem_of_ne_nil _ some
          obtain ⟨c, hc⟩ := leaves_ne_nil_iff.1 (filled x below).1
          exact leaves_ne_nil_iff.2 ⟨c, acyclic.leaves_subset (reach_of_child below) hc⟩
        · intro l hl
          apply filled_of_children acyclic ho (blank e .root) some (even.level e here o ho)
          intro before x after split
          obtain ⟨bearing, placed⟩ := filled x (by simp [split])
          exact placed _ ((arranged e .root).location_child ho hl split bearing)

end Store

/-! ## Stacks that are laid out -/

open Store

theorem BuildM.runs_rangeText_stack {cellText : CellId → BuildM String} {sheet : String} {k : StackId}
    {b : Build} {first last : Location} (range : b.store.blockRange? (.stack k) false = some (first, last)) :
    Runs (BuildM.rangeText cellText sheet (.stack k) false) b (spanText sheet first last) b := by
  rw [BuildM.rangeText, runs_bind]
  refine ⟨b, b, runs_get.2 ⟨rfl, rfl⟩, ?_⟩
  simp only [range, runs_pure, and_self]

/-- What is written for a stack after a layout, no cell of which is twice in the tree: the first and
the last of its cells, which enclose the others if the stack is even. -/
theorem BuildM.rangeText_layOut {b b' : Build} (wf : b.store.WellFormed) (regular : b.store.Regular)
    {root : Element} (hroot : b.store.InStore root) {sheet : String} {outer : Inherited} {r : Unit}
    (h : Runs (BuildM.layOut root sheet outer) b r b') (once : (b'.store.leaves root).Nodup)
    {k : StackId} (reach : Reach b'.store root (.stack k)) {first last : CellId}
    (hfirst : (b'.store.bodyCells (.stack k)).head? = some first)
    (hlast : (b'.store.bodyCells (.stack k)).getLast? = some last)
    (bounded : ∀ c ∈ [first, last], ∀ l, (b'.store.cell c).location = some l →
      l.row + 1 < coordinateBound ∧ l.col + 1 < coordinateBound)
    (cellText : CellId → BuildM String) (onSheet : String) :
    ∃ text l l', Runs (BuildM.rangeText cellText onSheet (.stack k) false) b' text b' ∧
      readSpan onSheet text = some (l, l') ∧ (b'.store.cell first).location = some l ∧
      (b'.store.cell last).location = some l' ∧
      ∀ axis headers, b'.store.Even axis headers (.stack k) →
        b'.store.Encloses l l' (b'.store.bodyCells (.stack k)) := by
  have laid := layOut_laidOut wf hroot h
  have acyclic := laid.grows.wf.acyclic
  obtain ⟨regular, blank⟩ := layOut_regular wf regular hroot h
  have arranged : ∀ x, Reach b'.store (.stack k) x → Arranged b'.store x :=
    fun x below => (laid.settled once).below x (reach.trans below)
  obtain ⟨corner, hcorner⟩ := Option.isSome_iff_exists.1 (laid.located (.stack k) rfl reach)
  have placed : ∀ c ∈ b'.store.bodyCells (.stack k), ∃ l,
      (b'.store.cell c).location = some l ∧ l.sheet = corner.sheet := by
    intro c hc
    obtain ⟨a, area, within⟩ := leaf_within acyclic arranged hcorner (List.mem_of_mem_filter hc)
    obtain ⟨l, hl, rfl⟩ := Option.map_eq_some_iff.1 area
    exact ⟨l, hl, within.1⟩
  obtain ⟨l, hl, onFirst⟩ := placed first (List.mem_of_head? hfirst)
  obtain ⟨l', hl', onLast⟩ := placed last (List.mem_of_getLast? hlast)
  refine ⟨spanText onSheet l l', l, l', ?_, ?_, hl, hl', fun axis headers even => ?_⟩
  · apply runs_rangeText_stack
    simp [blockRange?, hfirst, hlast, hl, hl']
  · apply readSpan_spanText onSheet (onLast.trans onFirst.symm)
    intro place hplace
    rcases List.mem_pair.1 hplace with rfl | rfl
    · exact bounded first (by simp) _ hl
    · exact bounded last (by simp) _ hl'
  · have unmarked : ∀ x, Reach b'.store (.stack k) x → b'.store.pendingHeader x = false := by
      intro x below
      cases x with
      | vector v => exact blank v (reach.trans below)
      | _ => rfl
    obtain ⟨⟨c, hc, front⟩, ⟨d, hd, back⟩, between⟩ :=
      (regular.filled acyclic even rfl arranged unmarked).2 corner hcorner
    obtain rfl := Option.some.inj (hc.symm.trans hfirst)
    obtain rfl := Option.some.inj (hd.symm.trans hlast)
    rw [Option.some.inj (hl.symm.trans front), Option.some.inj (hl'.symm.trans back)]
    exact between

/-! ## An even and an uneven stack -/

/-- Four cells in two columns side by side. -/
def Store.twoColumns (header : Option String) (left right : List CellId) : Store where
  cells := ⟨#[{ value := .text "1" }, { value := .text "2" }, { value := .text "3" },
    { value := .text "4" }]⟩
  vectors := ⟨#[{ orientation := .vertical, header, children := left.map .cell },
    { orientation := .vertical, header, children := right.map .cell }]⟩
  groups := ⟨#[{ orientation := .horizontal, children := [.vector ⟨0⟩, .vector ⟨1⟩] }]⟩

/-- Two columns of two cells below a header. -/
def Store.evenStack : Store :=
  twoColumns (some "a") [⟨0⟩, ⟨1⟩] [⟨2⟩, ⟨3⟩]

/-- A column of three cells and one of a single cell. -/
def Store.unevenStack : Store :=
  twoColumns none [⟨0⟩, ⟨1⟩, ⟨2⟩] [⟨3⟩]

/-- The state after a stack is laid out. -/
def Build.ofStack (s : Store) : Build :=
  (BuildM.layOut (.stack ⟨0⟩) "S" {} { store := s } : Except SheetError Unit × Build).2

theorem evenStack_wellFormed : Store.evenStack.WellFormed :=
  wellFormed_of_falling (fun | .stack _ => 2 | .vector _ => 1 | _ => 0) (by decide) (by decide)

theorem evenStack_runs : Runs (BuildM.layOut (.stack ⟨0⟩) "S" {}) { store := .evenStack } ()
    (Build.ofStack .evenStack) :=
  runs_of_eq_ok (by decide)

theorem evenStack_even : (Build.ofStack .evenStack).store.Even .vertical 1 (.stack ⟨0⟩) :=
  ⟨by decide, by decide, by decide, by decide⟩

theorem BuildM.rangeText_evenStack :
    Runs (BuildM.layOut (.stack ⟨0⟩) "S" {}) { store := .evenStack } () (Build.ofStack .evenStack) ∧
      (Build.ofStack .evenStack).store.Even .vertical 1 (.stack ⟨0⟩) ∧
      ∃ text l l', Runs (BuildM.rangeText (fun _ => pure "") "S" (.stack ⟨0⟩) false)
          (Build.ofStack .evenStack) text (Build.ofStack .evenStack) ∧
        readSpan "S" text = some (l, l') ∧
        ((Build.ofStack .evenStack).store.cell ⟨0⟩).location = some l ∧
        ((Build.ofStack .evenStack).store.cell ⟨3⟩).location = some l' ∧
        ∀ axis headers, (Build.ofStack .evenStack).store.Even axis headers (.stack ⟨0⟩) →
          (Build.ofStack .evenStack).store.Encloses l l'
            ((Build.ofStack .evenStack).store.bodyCells (.stack ⟨0⟩)) :=
  ⟨evenStack_runs, evenStack_even, BuildM.rangeText_layOut evenStack_wellFormed
    (regular_of_containers (by decide) (by decide)) (by decide) evenStack_runs (by decide)
    .root (by decide) (by decide) (by decide) _ _⟩

/-- The corners of an uneven stack miss what stands below them in the first column. -/
theorem BuildM.not_encloses_unevenStack :
    Runs (BuildM.layOut (.stack ⟨0⟩) "S" {}) { store := .unevenStack } ()
        (Build.ofStack .unevenStack) ∧
      Runs (BuildM.rangeText (fun _ => pure "") "S" (.stack ⟨0⟩) false)
        (Build.ofStack .unevenStack) "A1:B1" (Build.ofStack .unevenStack) ∧
      readSpan "S" "A1:B1" = some (⟨"S", 0, 0⟩, ⟨"S", 0, 1⟩) ∧
      ¬(Build.ofStack .unevenStack).store.Encloses ⟨"S", 0, 0⟩ ⟨"S", 0, 1⟩
        ((Build.ofStack .unevenStack).store.bodyCells (.stack ⟨0⟩)) := by
  have written : spanText "S" ⟨"S", 0, 0⟩ ⟨"S", 0, 1⟩ = "A1:B1" := by decide +kernel
  refine ⟨runs_of_eq_ok (by decide), ?_, by decide, fun encloses => ?_⟩
  · rw [← written]
    apply BuildM.runs_rangeText_stack
    decide
  · obtain ⟨l, place, within⟩ := encloses ⟨2⟩ (by decide)
    have bottom : ((Build.ofStack .unevenStack).store.cell ⟨2⟩).location = some ⟨"S", 2, 0⟩ := by
      decide
    obtain rfl := Option.some.inj (bottom.symm.trans place)
    exact absurd within.2.2.1 (by decide)

end Spreadsheet
