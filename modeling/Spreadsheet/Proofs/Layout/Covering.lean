import Spreadsheet.Proofs.Layout.Rectangular

/-!
# Areas that are full of cells

In a tree in which no node is twice every node gets a place behind its earlier siblings, also one
without cells.  If the children of a container are as broad as it is, then its area is full of cells
if theirs are.  The block that stands for a gap is full of empty cells.
-/

namespace Spreadsheet

namespace Area

/-- Whether a place is in an area. -/
def Holds (a : Area) (p : Location) : Prop :=
  p.sheet = a.corner.sheet ∧ (a.corner.row ≤ p.row ∧ p.row < a.corner.row + a.size.rows) ∧
    a.corner.col ≤ p.col ∧ p.col < a.corner.col + a.size.cols

instance (a : Area) (p : Location) : Decidable (a.Holds p) :=
  inferInstanceAs (Decidable (_ ∧ _ ∧ _))

theorem holds_iff (o : Orientation) {a : Area} {p : Location} :
    a.Holds p ↔ p.sheet = a.corner.sheet ∧
      (o.position a.corner ≤ o.position p ∧
        o.position p < o.position a.corner + o.along a.size) ∧
      o.cross.position a.corner ≤ o.cross.position p ∧
        o.cross.position p < o.cross.position a.corner + o.across a.size := by
  cases o with
  | vertical => exact Iff.rfl
  | horizontal => exact and_congr_right fun _ => and_comm

theorem Within.holds {a b : Area} (h : Within a b) {p : Location} (hp : a.Holds p) : b.Holds p := by
  obtain ⟨sheet, top, bottom, left, right⟩ := h
  obtain ⟨sheet', rows, cols⟩ := hp
  refine ⟨sheet'.trans sheet, ?_, ?_⟩ <;> omega

theorem Disjoint.not_holds {a b : Area} (h : Disjoint a b) {p : Location} (hp : a.Holds p) :
    ¬b.Holds p := by
  obtain ⟨-, rows, cols⟩ := hp
  rintro ⟨-, rows', cols'⟩
  rcases h with h | h | h | h <;> omega

theorem holds_corner {a : Area} (rows : 1 ≤ a.size.rows) (cols : 1 ≤ a.size.cols) :
    a.Holds a.corner := by
  refine ⟨rfl, ?_, ?_⟩ <;> omega

end Area

namespace Store

variable {s t : Store} {o : Orientation} {e : Element} {l : List Element}

/-! ## Every node has its place -/

theorem isSolid_of_reach {a b : Element} (reach : Reach s a b) (solid : b.isSolid = true) :
    a.isSolid = true := by
  rcases reach.eq_or_child with rfl | ⟨child, below, -⟩
  · exact solid
  · exact Element.isSolid_of_isContainer (isContainer_of_child below)

/-- In a forest, everything but a gap is there once. -/
theorem Forest.distinct (h : s.Forest [e]) (acyclic : s.Acyclic) :
    s.Distinct (·.isSolid = true) e where
  solid _ := id
  above _ _ := isSolid_of_reach
  apart x reach := by
    have forest : s.Forest (s.children x) := by
      induction reach with
      | root => exact h.children acyclic
      | child _ below ih => exact (ih.sublist (List.singleton_sublist.2 below)).children acyclic
    rw [List.pairwise_iff_forall_sublist]
    intro a b part y solid above above'
    obtain ⟨n, node⟩ : ∃ n, y.node? = some n := by
      cases y <;> first | exact ⟨_, rfl⟩ | cases solid
    rw [← element_of_node? node] at above above'
    have both : (s.nodesUnder [a] ++ s.nodesUnder [b]).Nodup :=
      nodesUnder_append s [a] [b] ▸ forest.sublist part
    exact List.disjoint_of_nodup_append both (acyclic.mem_nodesUnder.2 ⟨a, by simp, above⟩)
      (acyclic.mem_nodesUnder.2 ⟨b, by simp, above'⟩)

/-- Whether in the tree under an element all nodes stand one behind the other. -/
def Seated (s : Store) (e : Element) : Prop :=
  ∀ x, Reach s e x → Lined (·.isSolid = true) s x

theorem Seated.below (h : s.Seated e) {x : Element} (reach : Reach s e x) : s.Seated x :=
  fun y reach' => h y (reach.trans reach')

theorem place_seated (wf : s.WellFormed) (he : s.InStore e) (solid : e.isSolid = true)
    (free : ∀ x, Reach s e x → GapFree s x) (forest : s.Forest [e]) (l : Location) :
    (s.place e l).location? e = some l ∧ (s.place e l).Seated e := by
  obtain ⟨rank, isRank⟩ := wf.acyclic.exists_rank
  have seats := seats_placeWithin isRank wf _ (isRank.bounded e) he free
    (forest.distinct wf.acyclic) (.refl s) l
  refine ⟨seats.here solid, fun x reach => seats.below x ?_⟩
  exact (moves_placeWithin _ s e l).reach.1 reach

section

variable (acyclic : s.Acyclic) (seated : s.Seated e)

include acyclic seated

theorem Seated.location {l : Location} (hl : s.location? e = some l) {x : Element}
    (reach : Reach s e x) (solid : x.isSolid = true) :
    ∃ l', s.location? x = some l' ∧ Area.Within ⟨l', s.extent x⟩ ⟨l, s.extent e⟩ :=
  lined_within acyclic seated (fun _ _ => isSolid_of_reach) hl reach solid

theorem Seated.outside {l : Location} (hl : s.location? e = some l) {x : Element}
    (reach : Reach s e x) (solid : x.isSolid = true) {c : CellId} (hc : c ∈ s.leaves e)
    (other : c ∉ s.leaves x) :
    ∃ a l', s.cellArea? c = some a ∧ s.location? x = some l' ∧
      Area.Disjoint a ⟨l', s.extent x⟩ :=
  lined_outside acyclic seated (fun _ _ => isSolid_of_reach) hl reach solid hc other rfl

end

/-! ## Full areas -/

/-- Whether a place is in the area of an element. -/
def Inside (s : Store) (e : Element) (p : Location) : Prop :=
  ∃ l, s.location? e = some l ∧ Area.Holds ⟨l, s.extent e⟩ p

/-- Whether at every place of the area of an element, apart from a hole, there is a cell of a kind. -/
def Covered (s : Store) (hole : Location → Prop) (kind : CellId → Prop) (e : Element) : Prop :=
  ∀ p, s.Inside e p → hole p ∨ ∃ c ∈ s.leaves e, kind c ∧ (s.cell c).location = some p

variable {hole : Location → Prop} {kind : CellId → Prop}

theorem covered_cell (acyclic : s.Acyclic) {c : CellId} (here : kind c)
    (single : (s.cell c).merge = ⟨1, 1⟩) : s.Covered hole kind (.cell c) := by
  rintro p ⟨l, hl, sheet, rows, cols⟩
  have size : s.extent (.cell c) = ⟨1, 1⟩ := single
  refine .inr ⟨c, by simp [leaves_cell acyclic], here, ?_⟩
  rw [show (s.cell c).location = some l from hl]
  rw [size] at rows cols
  simp only at sheet rows cols
  cases p
  cases l
  simp only [Option.some.injEq, Location.mk.injEq]
  simp only at sheet rows cols
  exact ⟨sheet.symm, by omega, by omega⟩

/-- A place along a list of elements is in one of them. -/
theorem exists_split_of_lt {d : Nat} (h : d < s.lengthAlong o l) :
    ∃ before x after, l = before ++ x :: after ∧ s.lengthAlong o before ≤ d ∧
      d < s.lengthAlong o before + o.along (s.extent x) := by
  induction l generalizing d with
  | nil => cases h
  | cons x l ih =>
      rw [lengthAlong_cons] at h
      by_cases here : d < o.along (s.extent x)
      · exact ⟨[], x, l, rfl, Nat.zero_le _, by rwa [lengthAlong_nil, Nat.zero_add]⟩
      · obtain ⟨before, y, after, rfl, low, high⟩ := ih (d := d - o.along (s.extent x)) (by omega)
        refine ⟨x :: before, y, after, rfl, ?_, ?_⟩
        · rw [lengthAlong_cons]
          omega
        · rw [lengthAlong_cons]
          omega

/-- A container is covered if its children are, and these are as broad as it is. -/
theorem covered_of_children (acyclic : s.Acyclic) (seated : s.Seated e)
    (axis : s.orientation? e = some o) (blank : s.pendingHeader e = false)
    (solid : ∀ x ∈ s.children e, x.isSolid = true)
    (level : ∀ x ∈ s.children e, o.across (s.extent x) = o.across (s.extent e))
    (each : ∀ x ∈ s.children e, s.Covered hole kind x) : s.Covered hole kind e := by
  rintro p ⟨l, hl, hp⟩
  obtain ⟨sheet, ⟨low, high⟩, across⟩ := (Area.holds_iff o).1 hp
  rw [acyclic.along_extent axis blank] at high
  simp only at sheet low high across
  obtain ⟨before, x, after, split, front, behind⟩ := exists_split_of_lt
    (s := s) (o := o) (l := s.children e) (d := o.position p - o.position l) (by omega)
  have below : x ∈ s.children e := by simp [split]
  have place := (seated e .root).location_child axis hl split (solid x below)
  have inside : s.Inside x p := by
    refine ⟨_, place, (Area.holds_iff o).2 ⟨sheet, ?_, ?_⟩⟩
    · simp only [position_along]
      omega
    · rw [position_cross_along, level x below]
      exact across
  refine (each x below p inside).imp id ?_
  rintro ⟨c, hc, rest⟩
  exact ⟨c, acyclic.leaves_subset (reach_of_child below) hc, rest⟩

/-! ## Blocks of empty cells -/

/-- Whether a cell is an empty one for a gap, filled or not; only its place is its own. -/
def Blank (s : Store) (fill : Bool) (c : CellId) : Prop :=
  { s.cell c with location := none } = ({ inheritsStyle := fill } : CellNode)

theorem Blank.merge {fill : Bool} {c : CellId} (h : s.Blank fill c) : (s.cell c).merge = ⟨1, 1⟩ :=
  congrArg CellNode.merge h

theorem Blank.eq {fill : Bool} {c : CellId} (h : s.Blank fill c) {p : Location}
    (place : (s.cell c).location = some p) :
    s.cell c = { location := some p, inheritsStyle := fill } := by
  have all := congrArg (fun n : CellNode => { n with location := some p }) h
  rw [← place] at all ⊢
  exact all

variable {g : Gap} {n : Nat}

theorem GapBlock.cell_eq {f : FrameId} (h : GapBlock g o n s t [.frame f]) (acyclic : t.Acyclic)
    {c : CellId} (hc : c ∈ t.leaves (.frame f)) :
    t.cell c = { style := g.style, inheritsStyle := g.fill } := by
  obtain ⟨vectors, children, -, each⟩ := h.children
  rcases (acyclic.mem_leaves.1 hc).eq_or_child with same | ⟨x, below, reach⟩
  · cases same
  rw [children] at below
  obtain ⟨v, hv, rfl⟩ := List.mem_map.1 below
  obtain ⟨cells, children', -, each'⟩ := (each v hv).children
  rcases reach.eq_or_child with same | ⟨x, below, reach⟩
  · cases same
  rw [children'] at below
  obtain ⟨d, hd, rfl⟩ := List.mem_map.1 below
  have same := eq_of_reach_leaf rfl reach
  cases same
  exact (each' c hd).2

section

variable {u : Store} {touched : Element → Prop} (acyclic : t.Acyclic) (moves : Moves touched t u)
  (headers : ∀ x, u.pendingHeader x = t.pendingHeader x)

include acyclic moves headers

theorem GapVector.covered {v : VectorId} (h : GapVector g o n s t v)
    (seated : u.Seated (.vector v)) (all : ∀ c ∈ u.leaves (.vector v), kind c) :
    u.Covered hole kind (.vector v) := by
  have acyclicU := moves.toAlike.acyclic acyclic
  have long := h.extent acyclic
  obtain ⟨cells, children, -, each⟩ := h.children
  obtain ⟨-, _, -, is⟩ := h
  have axis : u.orientation? (.vector v) = some o := by rw [moves.orientation, orientation?, is]
  have blank : u.pendingHeader (.vector v) = false := by rw [headers, pendingHeader, is]; rfl
  have below : ∀ x ∈ u.children (.vector v), ∃ c ∈ cells, x = .cell c := by
    intro x hx
    rw [moves.children, children] at hx
    obtain ⟨c, hc, rfl⟩ := List.mem_map.1 hx
    exact ⟨c, hc, rfl⟩
  refine covered_of_children acyclicU seated axis blank (fun x hx => ?_) (fun x hx => ?_)
    fun x hx => ?_
  · obtain ⟨c, -, rfl⟩ := below x hx
    rfl
  · obtain ⟨c, hc, rfl⟩ := below x hx
    rw [moves.extent_eq acyclic, moves.extent_eq acyclic, long, extent_gapCell (each c hc).2,
      Orientation.across_extent]
    cases o <;> rfl
  · have under := acyclicU.leaves_subset (reach_of_child hx)
    obtain ⟨c, hc, rfl⟩ := below x hx
    have own : c ∈ u.leaves (.cell c) := by simp [leaves_cell acyclicU]
    refine covered_cell acyclicU (all c (under own)) ?_
    rw [moves.merge]
    exact congrArg CellNode.merge (each c hc).2

/-- The block that stands for a gap is full of cells, once it is placed. -/
theorem GapBlock.covered {f : FrameId} (h : GapBlock g o n s t [.frame f])
    (seated : u.Seated (.frame f)) (all : ∀ c ∈ u.leaves (.frame f), kind c) :
    u.Covered hole kind (.frame f) := by
  have acyclicU := moves.toAlike.acyclic acyclic
  have size := h.extent acyclic
  obtain ⟨vectors, children, count, each⟩ := h.children
  obtain ⟨_, same, -, _, -, is⟩ := h
  cases same
  have axis : u.orientation? (.frame f) = some o := by rw [moves.orientation, orientation?, is]
  have below : ∀ x ∈ u.children (.frame f), ∃ v ∈ vectors, x = .vector v := by
    intro x hx
    rw [moves.children, children] at hx
    obtain ⟨v, hv, rfl⟩ := List.mem_map.1 hx
    exact ⟨v, hv, rfl⟩
  refine covered_of_children acyclicU seated axis rfl (fun x hx => ?_) (fun x hx => ?_)
    fun x hx => ?_
  · obtain ⟨v, -, rfl⟩ := below x hx
    rfl
  · obtain ⟨v, hv, rfl⟩ := below x hx
    have some : g.size ≠ 0 := fun none => by
      rw [List.eq_nil_of_length_eq_zero (count.trans none)] at hv
      cases hv
    rw [moves.extent_eq acyclic, moves.extent_eq acyclic, size, (each v hv).extent acyclic,
      if_neg some, Orientation.across_extent]
    exact o.cross.along_extent n 1
  · have under := acyclicU.leaves_subset (reach_of_child hx)
    have seated := seated.below (reach_of_child hx)
    obtain ⟨v, hv, rfl⟩ := below x hx
    exact (each v hv).covered acyclic moves headers seated fun c hc => all c (under hc)

end

end Store

end Spreadsheet
