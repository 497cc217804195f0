import Spreadsheet.Proofs.Layout.Covering
import Spreadsheet.Proofs.Layout.Perimeter
import Spreadsheet.Proofs.Layout.Wrapping

/-!
# Space moves what it surrounds

When the gaps around a child have become cells and everything is placed, the block in the place of the
child is larger than the child by the amounts of margin and padding, and the child lies in it behind
those at the top and on the left.  The rest of the block is full of empty cells, which take over the
style of the child's block exactly where the padding is.
-/

namespace Spreadsheet

open Store

/-- The sides of a row or a column with space at both ends. -/
def Orientation.ends : Orientation → Nat → Nat → Sides Nat
  | .horizontal, before, after => ⟨0, after, 0, before⟩
  | .vertical, before, after => ⟨before, 0, after, 0⟩

/-- An extent with space around it. -/
def Extent.grown (e : Extent) (sides : Sides Nat) : Extent :=
  ⟨sides.top + e.rows + sides.bottom, sides.left + e.cols + sides.right⟩

theorem Extent.grown_uniform (e : Extent) : e.grown (.uniform 0) = e := by
  simp [Extent.grown, Sides.uniform]

theorem Extent.grown_row_column (e : Extent) (sides : Sides Nat) :
    (e.grown (Orientation.horizontal.ends sides.left sides.right)).grown
      (Orientation.vertical.ends sides.top sides.bottom) = e.grown sides := by
  simp [Extent.grown, Orientation.ends]

theorem Orientation.extent_eq_grown {o : Orientation} {e e' : Extent} {before after : Nat}
    (along : o.along e' = before + (o.along e + after)) (across : o.across e' = o.across e) :
    e' = e.grown (o.ends before after) := by
  cases o <;>
    simp only [Orientation.along, Orientation.across, Orientation.cross] at along across <;>
    simp only [Extent.grown, Orientation.ends, ← along, ← across, Nat.zero_add, Nat.add_zero,
      Nat.add_assoc]

namespace Store

variable {s t u : Store} {o : Orientation} {fill : Bool} {inner outer : Element}

/-! ## Between two gaps -/

/-- Whether some elements stand for a gap at one end, if it is there. -/
def AtEnd (P : Gap → List Element → Prop) (size : Nat) (fill : Bool) (l : List Element) : Prop :=
  size = 0 ∧ l = [] ∨ 0 < size ∧ P { size, fill } l

theorem Expands.append {P : Gap → List Element → Prop} {a b l : List Element}
    (h : Expands P (a ++ b) l) : ∃ a' b', l = a' ++ b' ∧ Expands P a a' ∧ Expands P b b' := by
  induction a generalizing l with
  | nil => exact ⟨[], l, rfl, .nil, h⟩
  | cons x a ih =>
      cases h with
      | keep solid rest =>
          obtain ⟨a', b', rfl, front, back⟩ := ih rest
          exact ⟨x :: a', b', rfl, .keep solid front, back⟩
      | @fill g new _ _ fits rest =>
          obtain ⟨a', b', rfl, front, back⟩ := ih rest
          exact ⟨new ++ a', b', (List.append_assoc ..).symm, .fill fits front, back⟩

theorem Expands.atEnd {P : Gap → List Element → Prop} {size : Nat} {l : List Element}
    (h : Expands P (sideGap size fill) l) : AtEnd P size fill l := by
  unfold sideGap at h
  split at h
  case isTrue none =>
    cases h
    exact .inl ⟨none, rfl⟩
  case isFalse some =>
    cases h with
    | keep solid _ => exact absurd rfl (solid _)
    | fill fits rest =>
        cases rest
        exact .inr ⟨Nat.pos_of_ne_zero some, (List.append_nil _).symm ▸ fits⟩

theorem Expands.between {P : Gap → List Element → Prop} {n m : Nat} {l : List Element}
    (h : Expands P (sideGap n fill ++ [inner] ++ sideGap m fill) l) (solid : inner.isSolid = true) :
    ∃ before after, l = before ++ inner :: after ∧ AtEnd P n fill before ∧ AtEnd P m fill after := by
  obtain ⟨front, after, rfl, front', back⟩ := h.append
  obtain ⟨before, middle, rfl, ends, middle'⟩ := front'.append
  refine ⟨before, after, ?_, ends.atEnd, back.atEnd⟩
  cases middle' with
  | keep _ rest =>
      cases rest
      simp
  | fill => cases solid

theorem breadth_sideGap (s : Store) (o : Orientation) (size : Nat) (fill : Bool) :
    s.breadth o (sideGap size fill) = 0 := by
  unfold sideGap
  split <;> cases o <;> rfl

theorem fullLength_sideGap (s : Store) (o : Orientation) (size : Nat) (fill : Bool) :
    s.fullLength o (sideGap size fill) = size := by
  unfold sideGap
  split
  case isTrue none => rw [none]; rfl
  case isFalse => rfl

/-- Gaps do not make a stack broader. -/
theorem breadth_between (n m : Nat) :
    s.breadth o (sideGap n fill ++ [inner] ++ sideGap m fill) = o.across (s.extent inner) := by
  refine le_antisymm (breadth_le_iff.2 fun x hx => ?_) (le_breadth (by simp))
  have bare : ∀ size, ∀ x ∈ sideGap size fill, o.across (s.extent x) ≤ 0 := fun size =>
    breadth_le_iff.1 (s.breadth_sideGap o size fill).le
  simp only [List.mem_append, List.mem_singleton] at hx
  rcases hx with (before | rfl) | after
  · exact (bare n x before).trans (Nat.zero_le _)
  · exact le_refl _
  · exact (bare m x after).trans (Nat.zero_le _)

theorem fullLength_between (solid : inner.isSolid = true) (n m : Nat) :
    s.fullLength o (sideGap n fill ++ [inner] ++ sideGap m fill) =
      n + (o.along (s.extent inner) + m) := by
  have own : s.fullLength o [inner] = o.along (s.extent inner) :=
    s.advance_eq o fun g same => by rw [same] at solid; cases solid
  rw [fullLength_append, fullLength_append, fullLength_sideGap, fullLength_sideGap, own,
    Nat.add_assoc]

/-- Whether an element is the block for a gap of some size, so broad. -/
def IsBlock (s t : Store) (o : Orientation) (fill : Bool) (w : Nat) (x : Element) : Prop :=
  ∃ f size, x = .frame f ∧ 0 < size ∧ GapBlock { size, fill } o w s t [.frame f]

section

variable {w size : Nat} {x : Element} {l : List Element}

theorem AtEnd.isBlock (h : AtEnd (fun g => GapBlock g o w s t) size fill l) (hx : x ∈ l) :
    IsBlock s t o fill w x := by
  rcases h with ⟨-, rfl⟩ | ⟨some, f, rfl, rest⟩
  · cases hx
  · exact ⟨f, size, List.mem_singleton.1 hx, some, f, rfl, rest⟩

theorem AtEnd.lengthAlong (h : AtEnd (fun g => GapBlock g o w s t) size fill l)
    (acyclic : t.Acyclic) : t.lengthAlong o l = size := by
  rcases h with ⟨rfl, rfl⟩ | ⟨-, f, rfl, rest⟩
  · rfl
  · have block : GapBlock { size, fill } o w s t [.frame f] := ⟨f, rfl, rest⟩
    rw [lengthAlong_cons, block.extent acyclic, Orientation.along_extent]
    rfl

theorem IsBlock.isSolid (h : IsBlock s t o fill w x) : x.isSolid = true := by
  obtain ⟨f, -, rfl, -⟩ := h
  rfl

theorem IsBlock.across (h : IsBlock s t o fill w x) (acyclic : t.Acyclic) :
    o.across (t.extent x) = w := by
  obtain ⟨f, size, rfl, some, block⟩ := h
  rw [block.extent acyclic, Orientation.across_extent, if_neg (Nat.pos_iff_ne_zero.1 some)]

end

section

variable {k : StackId} {n m : Nat} (blocked : Blocked s t k) (acyclic : t.Acyclic)
  (axis : (s.stack k).orientation = o)
  (children : s.children (.stack k) = sideGap n fill ++ [inner] ++ sideGap m fill)
  (solid : inner.isSolid = true) (broad : 1 ≤ o.across (t.extent inner))

include blocked acyclic axis children solid broad

theorem Blocked.extent_between (same : t.orientation? (.stack k) = some o) :
    t.extent (.stack k) = (t.extent inner).grown (o.ends n m) := by
  have along := blocked.along_extent acyclic (same.trans (congrArg some axis.symm))
  have across := blocked.across_extent acyclic (same.trans (congrArg some axis.symm))
  rw [axis, children, breadth_between] at across
  rw [axis, children, fullLength_between solid] at along
  exact o.extent_eq_grown along (across broad)

/-- An element between gaps gets between blocks as broad as it is itself. -/
theorem Blocked.between : ∃ before after, t.children (.stack k) = before ++ inner :: after ∧
    t.lengthAlong o before = n ∧ ∀ x ∈ t.children (.stack k),
      x = inner ∨ IsBlock s t o fill (o.across (t.extent inner)) x := by
  have expands := blocked
  simp only [Blocked, axis] at expands
  rw [children, breadth_between, max_eq_left broad] at expands
  obtain ⟨before, after, split, front, back⟩ := expands.between solid
  refine ⟨before, after, split, front.lengthAlong acyclic, fun x hx => ?_⟩
  rw [split] at hx
  rcases List.mem_append.1 hx with hx | hx
  · exact .inr (front.isBlock hx)
  · exact (List.mem_cons.1 hx).imp id back.isBlock

end

/-- An element in a list in which every gap gives way to one element keeps its number. -/
theorem Expands.getElem? {P : Gap → List Element → Prop} {l l' : List Element} (h : Expands P l l')
    (single : ∀ g new, P g new → new.length = 1) {i : Nat} {x : Element} (hi : l[i]? = some x)
    (solid : x.isSolid = true) : l'[i]? = some x := by
  induction h generalizing i with
  | nil => cases hi
  | keep _ _ ih =>
      cases i with
      | zero => exact hi
      | succ i => exact ih hi
  | @fill g new l l' fits _ ih =>
      obtain ⟨y, rfl⟩ := List.length_eq_one_iff.1 (single g new fits)
      cases i with
      | zero =>
          cases hi
          cases solid
      | succ i => exact ih hi

/-! ## Rims -/

/-- Whether an element is in another one with nothing but empty cells around it, so many at each
side. -/
structure Rimmed (u : Store) (fill : Bool) (sides : Sides Nat) (inner outer : Element) : Prop where
  reach : Reach u outer inner
  extent : u.extent outer = (u.extent inner).grown sides
  place : ∀ l, u.location? outer = some l →
    u.location? inner = some (l.offset sides.top sides.left)
  blank : ∀ c ∈ u.leaves outer, c ∉ u.leaves inner → u.Blank fill c
  covered : u.Covered (u.Inside inner) (u.Blank fill) outer

theorem Rimmed.refl (u : Store) (fill : Bool) (e : Element) : u.Rimmed fill (.uniform 0) e e where
  reach := .root
  extent := (Extent.grown_uniform _).symm
  place l hl := by simpa [Location.offset, Sides.uniform] using hl
  blank c hc other := absurd hc other
  covered p hp := .inl hp

/-- A row with space at its ends, in a column with space at its ends. -/
theorem Rimmed.around {sides : Sides Nat} {row column : Element} (acyclic : u.Acyclic)
    (first : u.Rimmed fill (Orientation.horizontal.ends sides.left sides.right) inner row)
    (second : u.Rimmed fill (Orientation.vertical.ends sides.top sides.bottom) row column) :
    u.Rimmed fill sides inner column where
  reach := second.reach.trans first.reach
  extent := by rw [second.extent, first.extent, Extent.grown_row_column]
  place l hl := by
    simpa [Location.offset, Orientation.ends] using first.place _ (second.place l hl)
  blank c hc other := by
    by_cases inRow : c ∈ u.leaves row
    · exact first.blank c inRow other
    · exact second.blank c hc inRow
  covered p hp := by
    rcases second.covered p hp with inRow | cell
    · refine (first.covered p inRow).imp id ?_
      rintro ⟨c, hc, rest⟩
      exact ⟨c, acyclic.leaves_subset second.reach hc, rest⟩
    · exact .inr cell

/-! ## From the gaps to the places -/

/-- Whether a store is another one with a tree placed, in which the gaps of a third have been
replaced. -/
structure Staged (s t u : Store) (root : Element) : Prop where
  acyclic : t.Acyclic
  exploded : Exploded s t root
  axes : ∀ x, Reach s root x → t.orientation? x = s.orientation? x
  reach : ∀ x, x.isSolid = true → Reach s root x → Reach t root x
  moves : Moved t u
  settings : u.settings = t.settings
  headers : ∀ x, u.pendingHeader x = t.pendingHeader x
  seated : u.Seated root

section

variable {root : Element} (h : Staged s t u root)

include h

theorem Staged.acyclic_after : u.Acyclic :=
  h.moves.toAlike.acyclic h.acyclic

theorem Staged.seated_at {x : Element} (solid : x.isSolid = true) (reach : Reach s root x) :
    u.Seated x :=
  h.seated.below (h.moves.reach.2 (h.reach x solid reach))

theorem Staged.blank {w : Nat} {x : Element} (block : IsBlock s t o fill w x) {c : CellId}
    (hc : c ∈ u.leaves x) : u.Blank fill c := by
  obtain ⟨f, size, rfl, -, block⟩ := block
  rw [h.moves.toAlike.leaves_eq h.acyclic] at hc
  have same : ({ u.cell c with location := none } : CellNode) = { t.cell c with location := none } :=
    congrFun (congrArg Prod.snd h.settings) c
  rw [Blank, same, block.cell_eq h.acyclic hc]

theorem Staged.covered {w : Nat} {x : Element} (block : IsBlock s t o fill w x)
    (seated : u.Seated x) (hole : Location → Prop) : u.Covered hole (u.Blank fill) x := by
  have blank := fun c => h.blank (c := c) block
  obtain ⟨f, size, rfl, -, block⟩ := block
  exact block.covered h.acyclic h.moves h.headers seated blank

/-- A stack of an element and gaps at its ends. -/
theorem Staged.rimmed_stack {k : StackId} (reach : Reach s root (.stack k))
    (axis : s.orientation? (.stack k) = some o) {n m : Nat}
    (children : s.children (.stack k) = sideGap n fill ++ [inner] ++ sideGap m fill)
    (solid : inner.isSolid = true) (broad : 1 ≤ o.across (t.extent inner)) :
    u.Rimmed fill (o.ends n m) inner (.stack k) := by
  have acyclic := h.acyclic
  have acyclicU := h.acyclic_after
  have blocked := h.exploded.stack k reach
  have own : (s.stack k).orientation = o := Option.some.inj axis
  have axisT : t.orientation? (.stack k) = some o := (h.axes _ reach).trans axis
  have axisU : u.orientation? (.stack k) = some o := (h.moves.orientation _).trans axisT
  have seated := h.seated_at rfl reach
  have sizes : ∀ e, u.extent e = t.extent e := h.moves.extent_eq acyclic
  have extent := blocked.extent_between acyclic own children solid broad axisT
  obtain ⟨before, after, split, length, cases⟩ :=
    blocked.between acyclic own children solid broad
  rw [← h.moves.children] at split cases
  have below : inner ∈ u.children (.stack k) := by simp [split]
  refine ⟨reach_of_child below, ?_, fun l hl => ?_, fun c hc other => ?_, ?_⟩
  · rw [sizes, sizes, extent]
  · have place := (seated _ .root).location_child axisU hl split solid
    rw [place, h.moves.lengthAlong_eq acyclic, length]
    cases o <;> simp [Store.along, Orientation.step, Orientation.ends]
  · rcases (acyclicU.mem_leaves.1 hc).eq_or_child with same | ⟨x, hx, reach'⟩
    · cases same
    · rcases cases x hx with rfl | block
      · exact absurd (acyclicU.mem_leaves.2 reach') other
      · exact h.blank block (acyclicU.mem_leaves.2 reach')
  · refine covered_of_children acyclicU seated axisU rfl (fun x hx => ?_) (fun x hx => ?_)
      fun x hx => ?_
    · rcases cases x hx with rfl | block
      · exact solid
      · exact block.isSolid
    · have wide : o.across (t.extent x) = o.across (t.extent inner) := by
        rcases cases x hx with rfl | block
        · rfl
        · exact block.across acyclic
      rw [sizes, sizes, wide, extent]
      cases o <;> simp [Orientation.across, Orientation.cross, Orientation.along, Extent.grown,
        Orientation.ends]
    · rcases cases x hx with rfl | block
      · exact fun p hp => .inl hp
      · exact h.covered block (seated.below (reach_of_child hx)) _

/-- Space around an element becomes a rim of empty cells. -/
theorem Staged.rimmed {sides : Sides Nat} {news : List Node} (reach : Reach s root outer)
    (ringed : Ringed s fill sides inner outer news) (solid : inner.isSolid = true)
    (rows : 1 ≤ (u.extent inner).rows) (cols : 1 ≤ (u.extent inner).cols) :
    u.Rimmed fill sides inner outer := by
  have sizes : ∀ e, u.extent e = t.extent e := h.moves.extent_eq h.acyclic
  cases ringed with
  | bare none =>
      rw [none]
      exact .refl u fill inner
  | @around row column rowAxis rowChildren columnAxis columnChildren =>
      have below : .stack row ∈ s.children (.stack column) := by simp [columnChildren]
      have first := h.rimmed_stack (reach.trans (reach_of_child below)) rowAxis rowChildren solid
        (sizes inner ▸ rows)
      refine first.around h.acyclic_after (h.rimmed_stack reach columnAxis columnChildren rfl ?_)
      have wide : 1 ≤ (u.extent (.stack row)).cols := by
        rw [first.extent]
        simp only [Extent.grown]
        omega
      exact sizes (.stack row) ▸ wide

end

/-! ## The slot of a child -/

/-- The padding rectangle of a child in a block with a corner: the child with its padding around it. -/
def paddingArea (u : Store) (margin padding : Sides Nat) (child : Element) (l : Location) : Area :=
  ⟨l.offset margin.top margin.left, (u.extent child).grown padding⟩

/-- What stands in the slot of a child with a margin and a padding, its corner at a place. -/
structure Surrounded (u : Store) (margin padding : Sides Nat) (child block : Element)
    (l : Location) : Prop where
  below : Reach u block child
  rows : (u.extent block).rows =
    (u.extent child).rows + (margin.top + margin.bottom) + (padding.top + padding.bottom)
  cols : (u.extent block).cols =
    (u.extent child).cols + (margin.left + margin.right) + (padding.left + padding.right)
  corner : u.location? block = some l
  moved : u.location? child =
    some (l.offset (margin.top + padding.top) (margin.left + padding.left))
  /-- The cells of the block that are none of the child's lie outside of it and are empty; they are
  filled where the padding is. -/
  blank : ∀ c ∈ u.leaves block, c ∉ u.leaves child → ∃ p, ¬u.Inside child p ∧
    u.cell c = {
      location := some p
      inheritsStyle := decide ((u.paddingArea margin padding child l).Holds p) }
  /-- No place outside of the child is left free. -/
  full : ∀ p, u.Inside block p → ¬u.Inside child p →
    ∃ c ∈ u.leaves block, c ∉ u.leaves child ∧ (u.cell c).location = some p

/-- A place that a cell of one place covers is in the areas of what the cell is below. -/
theorem Seated.inside_of_leaf {e : Element} (seated : u.Seated e) (acyclic : u.Acyclic)
    {l p : Location} (hl : u.location? e = some l) {c : CellId} (hc : c ∈ u.leaves e)
    (single : (u.cell c).merge = ⟨1, 1⟩) (place : (u.cell c).location = some p) : u.Inside e p := by
  obtain ⟨a, ha, within⟩ := lined_leaf_within acyclic seated (fun _ _ => isSolid_of_reach) hl hc rfl
  rw [cellArea?, place, single] at ha
  obtain rfl := Option.some.inj ha
  exact ⟨l, hl, within.holds (Area.holds_corner (le_refl 1) (le_refl 1))⟩

theorem Seated.not_inside {e x : Element} (seated : u.Seated e) (acyclic : u.Acyclic)
    {l : Location} (hl : u.location? e = some l) (reach : Reach u e x) (solid : x.isSolid = true)
    {c : CellId} (hc : c ∈ u.leaves e) (other : c ∉ u.leaves x)
    (single : (u.cell c).merge = ⟨1, 1⟩) :
    ∃ p, (u.cell c).location = some p ∧ ¬u.Inside x p := by
  obtain ⟨a, l', ha, hl', disjoint⟩ := seated.outside acyclic hl reach solid hc other
  obtain ⟨p, place, rfl⟩ := Option.map_eq_some_iff.1 ha
  refine ⟨p, place, ?_⟩
  rintro ⟨l'', hl'', holds⟩
  obtain rfl := Option.some.inj (hl'.symm.trans hl'')
  refine disjoint.not_holds (Area.holds_corner ?_ ?_) holds <;> simp [single]

/-- A padding that is filled, and a margin around it that is not. -/
theorem Rimmed.surrounded {margin padding : Sides Nat} {child padded block : Element}
    {l : Location} (acyclic : u.Acyclic) (seated : u.Seated block) (hl : u.location? block = some l)
    (solid : child.isSolid = true) (inner : u.Rimmed true padding child padded)
    (outer : u.Rimmed false margin padded block) : u.Surrounded margin padding child block l := by
  have solid' := isSolid_of_reach inner.reach solid
  have reach := outer.reach.trans inner.reach
  have hp := outer.place l hl
  have hc := inner.place _ hp
  have both : ∀ c ∈ u.leaves block, c ∉ u.leaves child → ∃ fill, u.Blank fill c := by
    intro c hc other
    by_cases inPadded : c ∈ u.leaves padded
    · exact ⟨_, inner.blank c inPadded other⟩
    · exact ⟨_, outer.blank c hc inPadded⟩
  refine ⟨reach, ?_, ?_, hl, ?_, fun c hc' other => ?_, fun p hp' out => ?_⟩
  · rw [outer.extent, inner.extent]
    simp only [Extent.grown]
    omega
  · rw [outer.extent, inner.extent]
    simp only [Extent.grown]
    omega
  · rw [hc]
    simp [Location.offset, Nat.add_assoc]
  · obtain ⟨fill, blank⟩ := both c hc' other
    obtain ⟨p, place, out⟩ := seated.not_inside acyclic hl reach solid hc' other blank.merge
    refine ⟨p, out, ?_⟩
    -- The padding rectangle is the area of what is inside the margin.
    have rectangle : u.Inside padded p ↔ (u.paddingArea margin padding child l).Holds p := by
      rw [Inside, paddingArea, ← inner.extent]
      constructor
      · rintro ⟨l', hl', holds⟩
        obtain rfl := Option.some.inj (hp.symm.trans hl')
        exact holds
      · exact fun holds => ⟨_, hp, holds⟩
    by_cases inPadded : c ∈ u.leaves padded
    · have holds := (seated.below outer.reach).inside_of_leaf acyclic hp inPadded blank.merge place
      rw [decide_eq_true (rectangle.1 holds)]
      exact (inner.blank c inPadded other).eq place
    · obtain ⟨p', place', out'⟩ := seated.not_inside acyclic hl outer.reach solid' hc' inPadded
        blank.merge
      obtain rfl := Option.some.inj (place.symm.trans place')
      rw [decide_eq_false fun holds => out' (rectangle.2 holds)]
      exact (outer.blank c hc' inPadded).eq place
  · have free : ∀ c ∈ u.leaves block, ∀ fill, u.Blank fill c → (u.cell c).location = some p →
        ∃ c ∈ u.leaves block, c ∉ u.leaves child ∧ (u.cell c).location = some p := by
      intro c hc' fill blank place
      exact ⟨c, hc', fun own => out ((seated.below reach).inside_of_leaf acyclic hc own blank.merge
        place), place⟩
    rcases outer.covered p hp' with inPadded | ⟨c, hc', blank, place⟩
    · rcases inner.covered p inPadded with own | ⟨c, hc', blank, place⟩
      · exact absurd own out
      · exact free c (acyclic.leaves_subset outer.reach hc') _ blank place
    · exact free c hc' _ blank place

theorem CasedAll.getElem? {space : Element → Sides Nat × Sides Nat} {l l' : List Element}
    {news : List Node} (h : CasedAll t space l l' news) {i : Nat} {child : Element}
    (hi : l[i]? = some child) :
    ∃ block more, l'[i]? = some block ∧ Cased t (space child) child block more := by
  induction h generalizing i with
  | nil => cases hi
  | @cons _ block _ _ news _ cased _ ih =>
      cases i with
      | zero =>
          cases hi
          exact ⟨block, news, rfl, cased⟩
      | succ i => exact ih hi

theorem Ringed.reach {sides : Sides Nat} {news : List Node}
    (h : Ringed s fill sides inner outer news) : Reach s outer inner := by
  cases h with
  | bare => exact .root
  | @around row column _ rowChildren _ columnChildren =>
      have first : inner ∈ s.children (.stack row) := by simp [rowChildren]
      have second : .stack row ∈ s.children (.stack column) := by simp [columnChildren]
      exact .child (reach_of_child second) first

end Store

/-- The store after a tree has got its space and its gaps have become cells. -/
def Store.spaced (s : Store) (root : Element) : Store :=
  (StoreM.explodeGaps root (StoreM.wrapSpacing root s : List Notice × Store).2 : Unit × Store).2

namespace StoreM

variable {s : Store} {root : Element}

/-- The stages of a layout, from the space on. -/
theorem staged_spaced (wf : s.WellFormed) (regular : s.Regular) (inside : s.InStore root)
    (solid : root.isSolid = true) (forest : s.Forest [root]) (l : Location) :
    ∃ s₁, Wrapped s s₁ root ∧ (∀ x, x.isSolid = true → Reach s root x → Reach s₁ root x) ∧
      Staged s₁ (s.spaced root) ((s.spaced root).place root l) root ∧
      ((s.spaced root).place root l).location? root = some l := by
  rcases wrapping : (wrapSpacing root s : List Notice × Store) with ⟨notices, s₁⟩
  have first : Leads (wrapSpacing root) s notices s₁ := wrapping
  have second : Leads (explodeGaps root) s₁ () (s.spaced root) := by
    rw [Store.spaced, wrapping]
    rfl
  generalize s.spaced root = t at second ⊢
  have grown := wrapSpacing_grows wf inside first
  have inside₁ := grown.held root inside
  have regular₁ : s₁.Regular := by
    obtain ⟨_, _, ⟨rfl, rfl⟩, wrapped⟩ := leads_bind.1 first
    have shapes := wrapWithin_shapes _ (regular_iff_orderly.1 regular) trivial wrapped
    exact regular_iff_orderly.2 (shapes.orderly (regular_iff_orderly.1 regular))
  obtain ⟨wrapped, forest₁⟩ := wrapSpacing_wrapped wf inside forest first
  obtain ⟨filled, free⟩ := explodeGaps_gapFree grown.wf inside₁ second
  obtain ⟨edits, exploded⟩ := explodeGaps_exploded grown.wf regular₁ inside₁ forest₁ second
  have forest₂ := explodeGaps_forest grown.wf inside₁ forest₁ second
  obtain ⟨corner, seated⟩ := place_seated filled.wf (filled.held _ inside₁) solid free forest₂ l
  refine ⟨s₁, wrapped, fun x => grown.reach root x, ?_, corner⟩
  exact
    { acyclic := filled.wf.acyclic
      exploded := exploded
      axes := fun x reach => (edits.intact x (grown.wf.inStore_of_reach inside₁ reach)).orientation
      reach := fun x => filled.reach root x
      moves := (moves_placeWithin _ t root l).imp fun _ _ => trivial
      settings := settings_place t root l
      headers := fun x => pendingHeader_place t root x l
      seated := seated }

/-- A row with a gap under a column that has a padding and a margin. -/
def roomyStack : Store where
  cells := ⟨#[{}, {}, { merge := ⟨1, 2⟩ }, {}]⟩
  vectors := ⟨#[
    { orientation := .vertical, children := [.cell ⟨0⟩, .cell ⟨1⟩],
      attributes := {
        margin := ⟨some (.uniform 0), ⟨none, none, none, some 2⟩⟩
        padding := ⟨some ⟨1, 3, 0, 3⟩, ⟨none, none, none, some 1⟩⟩ } },
    { orientation := .horizontal, children := [.cell ⟨2⟩, .gap { size := 1 }, .cell ⟨3⟩] }]⟩
  groups := ⟨#[{ orientation := .vertical, children := [.vector ⟨1⟩, .vector ⟨0⟩] }]⟩

theorem roomyStack_wellFormed : roomyStack.WellFormed :=
  wellFormed_of_falling
    (fun | .stack _ => 3 | .frame _ => 2 | .vector _ => 1 | _ => 0) (by decide) (by decide)

end StoreM

end Spreadsheet
