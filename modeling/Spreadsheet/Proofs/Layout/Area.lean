import Spreadsheet.Proofs.Layout.Place

/-!
# Areas of a sheet

Where children stand one behind the other, the area of a child lies in that of its container, and
the areas of siblings have nothing in common.  From the children this carries over to all cells
below an element.
-/

namespace Spreadsheet

/-- How far along an axis a place is. -/
def Orientation.position : Orientation → Location → Nat
  | .horizontal, l => l.col
  | .vertical, l => l.row

@[simp] theorem Store.position_along (o : Orientation) (l : Location) (n : Nat) :
    o.position (along o l n) = o.position l + n := by
  cases o <;> simp [Orientation.position, along, Location.offset, Orientation.step]

/-- A number of rows and columns from a location on. -/
structure Area where
  corner : Location
  size : Extent

namespace Area

/-- Whether an area lies in another one. -/
def Within (a b : Area) : Prop :=
  a.corner.sheet = b.corner.sheet ∧
    b.corner.row ≤ a.corner.row ∧ a.corner.row + a.size.rows ≤ b.corner.row + b.size.rows ∧
    b.corner.col ≤ a.corner.col ∧ a.corner.col + a.size.cols ≤ b.corner.col + b.size.cols

/-- Whether two areas share no row or no column. -/
def Disjoint (a b : Area) : Prop :=
  a.corner.row + a.size.rows ≤ b.corner.row ∨ b.corner.row + b.size.rows ≤ a.corner.row ∨
    a.corner.col + a.size.cols ≤ b.corner.col ∨ b.corner.col + b.size.cols ≤ a.corner.col

/-- Whether an area ends, along an axis, where another one begins, or in front of it. -/
def Ahead (o : Orientation) (a b : Area) : Prop :=
  o.position a.corner + o.along a.size ≤ o.position b.corner

theorem disjoint_iff {a b : Area} : Disjoint a b ↔ ∃ o, Ahead o a b ∨ Ahead o b a := by
  constructor
  · rintro (h | h | h | h)
    · exact ⟨.vertical, .inl h⟩
    · exact ⟨.vertical, .inr h⟩
    · exact ⟨.horizontal, .inl h⟩
    · exact ⟨.horizontal, .inr h⟩
  · rintro ⟨_ | _, h | h⟩
    · exact .inr (.inr (.inl h))
    · exact .inr (.inr (.inr h))
    · exact .inl h
    · exact .inr (.inl h)

theorem Within.refl (a : Area) : Within a a :=
  ⟨rfl, Nat.le_refl _, Nat.le_refl _, Nat.le_refl _, Nat.le_refl _⟩

theorem Within.trans {a b c : Area} (first : Within a b) (second : Within b c) : Within a c := by
  obtain ⟨sheet, top, bottom, left, right⟩ := first
  obtain ⟨sheet', top', bottom', left', right'⟩ := second
  exact ⟨sheet.trans sheet', top'.trans top, bottom.trans bottom', left'.trans left,
    right.trans right'⟩

theorem Within.mono {l : Location} {a : Area} {e e' : Extent} (h : Within a ⟨l, e⟩) (le : e ≤ e') :
    Within a ⟨l, e'⟩ := by
  obtain ⟨sheet, top, bottom, left, right⟩ := h
  have rows := le.1
  have cols := le.2
  exact ⟨sheet, top, by simp only at *; omega, left, by simp only at *; omega⟩

theorem Ahead.within {o : Orientation} {a b c d : Area} (h : Ahead o a b) (hc : Within c a)
    (hd : Within d b) : Ahead o c d := by
  obtain ⟨-, top, bottom, left, right⟩ := hc
  obtain ⟨-, top', bottom', left', right'⟩ := hd
  cases o <;> simp only [Ahead, Orientation.position, Orientation.along] at * <;> omega

/-- A block that begins a number of units along an axis and ends within the whole. -/
theorem within_along {o : Orientation} {l : Location} {offset : Nat} {part whole : Extent}
    (along : offset + o.along part ≤ o.along whole) (across : o.across part ≤ o.across whole) :
    Within ⟨Store.along o l offset, part⟩ ⟨l, whole⟩ := by
  cases o <;>
    simp only [Orientation.along, Orientation.across, Orientation.cross] at along across <;>
    simp only [Within, Store.along, Location.offset, Orientation.step] <;>
    refine ⟨trivial, ?_⟩ <;> omega

end Area

namespace Store

variable {s : Store} {e : Element}

theorem lengthAlong_append (s : Store) (o : Orientation) (l m : List Element) :
    s.lengthAlong o (l ++ m) = s.lengthAlong o l + s.lengthAlong o m := by
  simp [lengthAlong]

theorem lengthAlong_cons (s : Store) (o : Orientation) (e : Element) (l : List Element) :
    s.lengthAlong o (e :: l) = o.along (s.extent e) + s.lengthAlong o l := by
  simp [lengthAlong]

theorem Acyclic.lengthAlong_le (h : s.Acyclic) {o : Orientation} (ho : s.orientation? e = some o) :
    s.lengthAlong o (s.children e) ≤ o.along (s.extent e) := by
  have whole := ((Extent.le_iff o).1
    (stacked_le_extentOver ho ((s.children e).map s.extent))).1
  rw [← h.extent_eq e, stacked, Orientation.along_extent, List.map_map] at whole
  exact whole

theorem split_of_mem_ne {α : Type} {l : List α} {a b : α} (ha : a ∈ l) (hb : b ∈ l) (ne : a ≠ b) :
    ∃ before between after, l = before ++ a :: (between ++ b :: after) ∨
      l = before ++ b :: (between ++ a :: after) := by
  obtain ⟨before, after, rfl⟩ := List.append_of_mem ha
  rcases List.mem_append.1 hb with hb | hb
  · obtain ⟨front, between, rfl⟩ := List.append_of_mem hb
    exact ⟨front, between, after, .inr (by simp)⟩
  · obtain ⟨between, back, rfl⟩ := List.append_of_mem ((List.mem_cons.1 hb).resolve_left ne.symm)
    exact ⟨before, between, back, .inl rfl⟩

/-- The area of a cell that is placed. -/
def cellArea? (s : Store) (c : CellId) : Option Area :=
  (s.cell c).location.map fun l => ⟨l, (s.cell c).merge⟩

section

variable {counts : Element → Prop}

theorem Lined.location_child (h : Lined counts s e) {o : Orientation}
    (ho : s.orientation? e = some o) {l : Location} (hl : s.location? e = some l)
    {before after : List Element} {child : Element}
    (split : s.children e = before ++ child :: after) (here : counts child) :
    s.location? child = some (along o l (s.lengthAlong o before)) := by
  rw [h o before child after ho split here, hl]
  rfl

theorem Lined.child_within (h : Lined counts s e) (acyclic : s.Acyclic) {l : Location}
    (hl : s.location? e = some l) {child : Element} (below : child ∈ s.children e)
    (here : counts child) :
    ∃ l', s.location? child = some l' ∧
      Area.Within ⟨l', s.extent child⟩ ⟨l, s.extent e⟩ := by
  obtain ⟨o, ho⟩ := orientation?_of_isContainer (s := s) (isContainer_of_child below)
  obtain ⟨before, after, split⟩ := List.append_of_mem below
  refine ⟨_, h.location_child ho hl split here, Area.within_along ?_ ?_⟩
  · have total := acyclic.lengthAlong_le ho
    rw [split, lengthAlong_append, lengthAlong_cons] at total
    omega
  · exact ((Extent.le_iff o).1 (acyclic.extent_child_le below)).2

variable (acyclic : s.Acyclic) (lined : ∀ x, Reach s e x → Lined counts s x)
  (above : ∀ a b, Reach s a b → counts b → counts a)

include acyclic lined above

/-- The area of whatever counts lies in the areas of all that is above it. -/
theorem lined_within {l : Location} (hl : s.location? e = some l) {x : Element}
    (reach : Reach s e x) (here : counts x) :
    ∃ l', s.location? x = some l' ∧ Area.Within ⟨l', s.extent x⟩ ⟨l, s.extent e⟩ := by
  induction reach with
  | root => exact ⟨l, hl, .refl _⟩
  | @child parent child reach below ih =>
      obtain ⟨l', hl', outer⟩ := ih (above parent child (reach_of_child below) here)
      obtain ⟨l'', hl'', inner⟩ := (lined parent reach).child_within acyclic hl' below here
      exact ⟨l'', hl'', inner.trans outer⟩

theorem lined_leaf_within {l : Location} (hl : s.location? e = some l) {c : CellId}
    (hc : c ∈ s.leaves e) (here : counts (.cell c)) :
    ∃ a, s.cellArea? c = some a ∧ Area.Within a ⟨l, s.extent e⟩ := by
  obtain ⟨l', hl', inside⟩ :=
    lined_within acyclic lined above hl (acyclic.mem_leaves.1 hc) here
  rw [acyclic.extent_eq] at inside
  refine ⟨⟨l', (s.cell c).merge⟩, ?_, inside⟩
  rw [cellArea?, show (s.cell c).location = some l' from hl']
  rfl

/-- A cell that is not below an element lies outside of its area. -/
theorem lined_outside {l : Location} (hl : s.location? e = some l) {x : Element}
    (reach : Reach s e x) (here : counts x) {c : CellId} (hc : c ∈ s.leaves e)
    (other : c ∉ s.leaves x) (cell : counts (.cell c)) :
    ∃ a l', s.cellArea? c = some a ∧ s.location? x = some l' ∧
      Area.Disjoint a ⟨l', s.extent x⟩ := by
  induction e using acyclic.induction generalizing l with
  | step e ih =>
      rcases reach.eq_or_child with rfl | ⟨child, below, reach⟩
      · exact absurd hc other
      have inside : ∀ z ∈ s.children e, ∀ y, Reach s z y → Lined counts s y :=
        fun z hz y reach => lined y ((reach_of_child hz).trans reach)
      obtain ⟨l₁, hl₁, -⟩ := (lined e .root).child_within acyclic hl below (above _ _ reach here)
      by_cases under : c ∈ s.leaves child
      · exact ih child below (inside child below) hl₁ reach under
      obtain ⟨child', below', hc'⟩ : ∃ child' ∈ s.children e, c ∈ s.leaves child' := by
        rcases (acyclic.mem_leaves.1 hc).eq_or_child with same | ⟨child', below', reach'⟩
        · subst same
          cases below
        · exact ⟨child', below', acyclic.mem_leaves.2 reach'⟩
      have here' := above _ _ (acyclic.mem_leaves.1 hc') cell
      obtain ⟨l₂, hl₂, -⟩ := (lined e .root).child_within acyclic hl below' here'
      obtain ⟨a, ha, within⟩ := lined_leaf_within acyclic (inside _ below') above hl₂ hc' cell
      obtain ⟨l', hl', within'⟩ := lined_within acyclic (inside _ below) above hl₁ reach here
      refine ⟨a, l', ha, hl', Area.disjoint_iff.2 ?_⟩
      -- Of the two children one is in front of the other.
      have ne : child ≠ child' := fun same => under (same ▸ hc')
      obtain ⟨o, ho⟩ := orientation?_of_isContainer (s := s) (isContainer_of_child below)
      have ahead : ∀ before between after x y lx ly, s.children e =
          before ++ x :: (between ++ y :: after) → counts x → counts y →
          s.location? x = some lx → s.location? y = some ly →
          Area.Ahead o ⟨lx, s.extent x⟩ ⟨ly, s.extent y⟩ := by
        intro before between after x y lx ly split hx hy placed placed'
        have first := (lined e .root).location_child ho hl split hx
        have second := (lined e .root).location_child ho hl
          (show s.children e = (before ++ x :: between) ++ y :: after by rw [split]; simp) hy
        obtain rfl := Option.some.inj (placed.symm.trans first)
        obtain rfl := Option.some.inj (placed'.symm.trans second)
        simp only [Area.Ahead, position_along, lengthAlong_append, lengthAlong_cons]
        omega
      have here₁ := above _ _ reach here
      obtain ⟨before, between, after, split | split⟩ := split_of_mem_ne below below' ne
      · exact ⟨o, .inr ((ahead _ _ _ _ _ _ _ split here₁ here' hl₁ hl₂).within within' within)⟩
      · exact ⟨o, .inl ((ahead _ _ _ _ _ _ _ split here' here₁ hl₂ hl₁).within within within')⟩

end

theorem leaves_cell (acyclic : s.Acyclic) (c : CellId) : s.leaves (.cell c) = [c] := by
  rw [acyclic.leaves_eq]
  rfl

theorem Arranged.lined (h : Arranged s e) : Lined (s.leaves · ≠ []) s e :=
  h

theorem Arranged.location_child (h : Arranged s e) {o : Orientation}
    (ho : s.orientation? e = some o) {l : Location} (hl : s.location? e = some l)
    {before after : List Element} {child : Element}
    (split : s.children e = before ++ child :: after) (bearing : s.leaves child ≠ []) :
    s.location? child = some (along o l (s.lengthAlong o before)) :=
  h.lined.location_child ho hl split bearing

theorem Arranged.child_within (h : Arranged s e) (acyclic : s.Acyclic) {l : Location}
    (hl : s.location? e = some l) {child : Element} (below : child ∈ s.children e)
    (bearing : s.leaves child ≠ []) :
    ∃ l', s.location? child = some l' ∧
      Area.Within ⟨l', s.extent child⟩ ⟨l, s.extent e⟩ :=
  h.lined.child_within acyclic hl below bearing

/-- The area of whatever has cells below it lies in the areas of all that is above it. -/
theorem within_of_reach (acyclic : s.Acyclic) (arranged : ∀ x, Reach s e x → Arranged s x)
    {l : Location} (hl : s.location? e = some l) {x : Element} (reach : Reach s e x)
    (bearing : s.leaves x ≠ []) :
    ∃ l', s.location? x = some l' ∧ Area.Within ⟨l', s.extent x⟩ ⟨l, s.extent e⟩ :=
  lined_within acyclic (fun x reach => (arranged x reach).lined)
    (fun _ _ => acyclic.leaves_ne_nil) hl reach bearing

theorem leaf_within (acyclic : s.Acyclic) (arranged : ∀ x, Reach s e x → Arranged s x)
    {l : Location} (hl : s.location? e = some l) {c : CellId} (hc : c ∈ s.leaves e) :
    ∃ a, s.cellArea? c = some a ∧ Area.Within a ⟨l, s.extent e⟩ :=
  lined_leaf_within acyclic (fun x reach => (arranged x reach).lined)
    (fun _ _ => acyclic.leaves_ne_nil) hl hc (by simp [leaves_cell acyclic])

/-- Whether along some axis all cells below an element are in front of all those below another one. -/
def Parted (s : Store) (x y : Element) : Prop :=
  ∃ o : Orientation,
    (∀ c ∈ s.leaves x, ∀ d ∈ s.leaves y, ∀ a b, s.cellArea? c = some a → s.cellArea? d = some b →
      Area.Ahead o a b) ∨
    ∀ c ∈ s.leaves x, ∀ d ∈ s.leaves y, ∀ a b, s.cellArea? c = some a → s.cellArea? d = some b →
      Area.Ahead o b a

theorem Parted.symm {x y : Element} (h : Parted s x y) : Parted s y x := by
  obtain ⟨o, ahead | behind⟩ := h
  · exact ⟨o, .inr fun d hd c hc b a hb ha => ahead c hc d hd a b ha hb⟩
  · exact ⟨o, .inl fun d hd c hc b a hb ha => behind c hc d hd a b ha hb⟩

theorem Parted.mono {x y x' y' : Element} (h : Parted s x y) (hx : s.leaves x' ⊆ s.leaves x)
    (hy : s.leaves y' ⊆ s.leaves y) : Parted s x' y' := by
  obtain ⟨o, ahead | behind⟩ := h
  · exact ⟨o, .inl fun c hc d hd => ahead c (hx hc) d (hy hd)⟩
  · exact ⟨o, .inr fun c hc d hd => behind c (hx hc) d (hy hd)⟩

theorem Parted.congr {t : Store} {x y : Element} (h : Parted s x y)
    (hx : t.leaves x = s.leaves x) (hy : t.leaves y = s.leaves y)
    (areaX : ∀ c ∈ t.leaves x, t.cellArea? c = s.cellArea? c)
    (areaY : ∀ c ∈ t.leaves y, t.cellArea? c = s.cellArea? c) : Parted t x y := by
  obtain ⟨o, ahead | behind⟩ := h
  · refine ⟨o, .inl fun c hc d hd a b ha hb => ?_⟩
    rw [areaX c hc] at ha
    rw [areaY d hd] at hb
    exact ahead c (hx ▸ hc) d (hy ▸ hd) a b ha hb
  · refine ⟨o, .inr fun c hc d hd a b ha hb => ?_⟩
    rw [areaX c hc] at ha
    rw [areaY d hd] at hb
    exact behind c (hx ▸ hc) d (hy ▸ hd) a b ha hb

theorem parted_of_leaves_eq_nil {x : Element} (y : Element) (h : s.leaves x = []) :
    Parted s x y :=
  ⟨.vertical, .inl fun c hc => by rw [h] at hc; cases hc⟩

/-- The cells below a child are in front of those below its later siblings. -/
theorem parted_of_split (acyclic : s.Acyclic) (arranged : ∀ x, Reach s e x → Arranged s x)
    {l : Location} (hl : s.location? e = some l) {before between after : List Element}
    {x y : Element} (split : s.children e = before ++ x :: (between ++ y :: after)) :
    Parted s x y := by
  have split' : s.children e = (before ++ x :: between) ++ y :: after := by
    rw [split]
    simp
  have below : x ∈ s.children e := by simp [split]
  obtain ⟨o, ho⟩ := orientation?_of_isContainer (s := s) (isContainer_of_child below)
  have inside : ∀ child ∈ s.children e, ∀ z, Reach s child z → Arranged s z :=
    fun child below z reach => arranged z ((reach_of_child below).trans reach)
  refine ⟨o, .inl fun c hc d hd a b ha hb => ?_⟩
  have first := (arranged e .root).location_child ho hl split (leaves_ne_nil_iff.2 ⟨c, hc⟩)
  have second := (arranged e .root).location_child ho hl split' (leaves_ne_nil_iff.2 ⟨d, hd⟩)
  obtain ⟨a', ha', withinA⟩ := leaf_within acyclic (inside x below) first hc
  obtain ⟨b', hb', withinB⟩ := leaf_within acyclic (inside y (by simp [split])) second hd
  obtain rfl := Option.some.inj (ha'.symm.trans ha)
  obtain rfl := Option.some.inj (hb'.symm.trans hb)
  refine Area.Ahead.within ?_ withinA withinB
  simp only [Area.Ahead, position_along, lengthAlong_append, lengthAlong_cons]
  omega

/-- Elements of which neither is below the other have their cells apart. -/
theorem parted_of_reach (acyclic : s.Acyclic) (arranged : ∀ x, Reach s e x → Arranged s x)
    {l : Location} (hl : s.location? e = some l) {x y : Element} (hx : Reach s e x)
    (hy : Reach s e y) (above : ¬Reach s x y) (below : ¬Reach s y x) : Parted s x y := by
  induction e using acyclic.induction generalizing l with
  | step e ih =>
      obtain rfl | ⟨child, hchild, reach⟩ := hx.eq_or_child
      · exact absurd hy above
      obtain rfl | ⟨child', hchild', reach'⟩ := hy.eq_or_child
      · exact absurd hx below
      by_cases same : child = child'
      · subst same
        by_cases bearing : s.leaves child = []
        · refine parted_of_leaves_eq_nil y (List.subset_nil.1 ?_)
          rw [← bearing]
          exact acyclic.leaves_subset reach
        · obtain ⟨l', hl', -⟩ := (arranged e .root).child_within acyclic hl hchild bearing
          exact ih child hchild (fun z hz => arranged z ((reach_of_child hchild).trans hz)) hl'
            reach reach'
      · -- The ways to the two part here.
        have apart : Parted s child child' := by
          obtain ⟨before, between, after, split | split⟩ := split_of_mem_ne hchild hchild' same
          · exact parted_of_split acyclic arranged hl split
          · exact (parted_of_split acyclic arranged hl split).symm
        exact apart.mono (acyclic.leaves_subset reach) (acyclic.leaves_subset reach')

end Store

end Spreadsheet
