import Spreadsheet.Proofs.Layout.Cascade

/-!
# A border around a container

A border is handed down by the position of a child among its siblings, each container handing on the
two sides along its axis and, to its first and last child, one of the other two.  Where the children of
each container are equally wide across its axis and fill it from end to end, the first child is the one
that lies at the leading edge, and so on: what reaches a cell is the part of the border of the root
that the cell touches.
-/

namespace Spreadsheet

/-! ## The part of a border that an area touches -/

namespace Border

/-- The sides of a border around an area that a part of the area touches. -/
def clip (b : Border) (part whole : Area) : Border where
  top := if part.corner.row = whole.corner.row then b.top else .unset
  right := if part.corner.col + part.size.cols = whole.corner.col + whole.size.cols then b.right
    else .unset
  bottom := if part.corner.row + part.size.rows = whole.corner.row + whole.size.rows then b.bottom
    else .unset
  left := if part.corner.col = whole.corner.col then b.left else .unset

theorem clip_self (b : Border) (a : Area) : b.clip a a = b := by
  simp [clip]

private theorem ite_ite_and {p q r : Prop} [Decidable p] [Decidable q] [Decidable r]
    (h : p ∧ q ↔ r) (x : BorderSide) :
    (if p then (if q then x else .unset) else .unset) = if r then x else .unset := by
  by_cases hp : p <;> by_cases hq : q <;> simp_all

/-- What a part of a part touches of the whole, it touches of the part in between. -/
theorem clip_clip (b : Border) {inner mid outer : Area} (h : Area.Within inner mid)
    (h' : Area.Within mid outer) : (b.clip mid outer).clip inner mid = b.clip inner outer := by
  obtain ⟨-, top, bottom, left, right⟩ := h
  obtain ⟨-, top', bottom', left', right'⟩ := h'
  simp only [clip]
  congr 1 <;> exact ite_ite_and (by omega) _

/-- A child gets both sides along the axis, and each other side if it is at that end. -/
theorem forChild_eq (b : Border) (o : Orientation) {index count : Nat} (inside : index < count) :
    b.forChild index count o =
      match o with
      | .vertical =>
        { b with
          top := if index = 0 then b.top else .unset
          bottom := if index + 1 = count then b.bottom else .unset }
      | .horizontal =>
        { b with
          left := if index = 0 then b.left else .unset
          right := if index + 1 = count then b.right else .unset } := by
  unfold forChild
  by_cases single : count ≤ 1
  · have first : index = 0 := by omega
    have last : index + 1 = count := by omega
    rw [if_pos single, if_pos first, if_pos first, if_pos last, if_pos last]
    cases o <;> rfl
  · rw [if_neg single]
    by_cases first : index = 0
    · have middle : ¬index + 1 = count := by omega
      simp only [if_pos first, if_neg middle]
      cases o <;> rfl
    · by_cases last : index + 1 = count
      · simp only [if_neg first, if_pos last]
        cases o <;> rfl
      · simp only [if_neg first, if_neg last]
        cases o <;> rfl

/-- The part of a border that is handed to a child is the part that the child touches, if it lies at an
end exactly if it is the first or the last, and is as wide as the container. -/
theorem forChild_eq_clip (b : Border) {o : Orientation} {index count offset : Nat} {l : Location}
    {part whole : Extent} (inside : index < count) (first : offset = 0 ↔ index = 0)
    (last : offset + o.along part = o.along whole ↔ index + 1 = count)
    (across : o.across part = o.across whole) :
    b.forChild index count o = b.clip ⟨Store.along o l offset, part⟩ ⟨l, whole⟩ := by
  rw [forChild_eq b o inside]
  cases o <;>
    simp only [Orientation.along, Orientation.across, Orientation.cross] at last across <;>
    simp only [clip, Store.along, Location.offset, Orientation.step, Nat.zero_mul, Nat.one_mul,
      Nat.add_zero, Nat.add_assoc, Nat.add_left_cancel_iff, Nat.add_eq_left, across, last, first,
      if_true]

end Border

/-! ## Styles without borders -/

namespace Inherited

/-- Whether no style that is handed down has a border of its own. -/
def IsPlain (i : Inherited) : Prop :=
  i.cellStyle.border = .unset ∧ i.headerStyle.border = .unset

theorem border_applyTo {i : Inherited} (plain : i.IsPlain) (isHeader : Bool) (style : CellStyle) :
    (i.applyTo isHeader style).border = style.border.inherit i.border := by
  cases isHeader <;> simp [applyTo, CellStyle.inherit, CellStyle.withBackground, plain.1, plain.2]

theorem IsPlain.within {i : Inherited} (plain : i.IsPlain) {a : Attributes}
    (cell : a.cellStyle.border = .unset) (header : a.headerStyle.border = .unset) :
    (i.within a).IsPlain := by
  constructor <;> simp [Inherited.within, CellStyle.inherit, cell, header, plain.1, plain.2]

end Inherited

namespace Store

variable {s t : Store} {root e child : Element} {l : Location} {c : CellId} {o : Orientation}

/-! ## Trees whose children are equally wide -/

/-- Whether in a tree every container has cells below it, and its children are equally wide across its
axis. -/
structure Uniform (s : Store) (root : Element) : Prop where
  bearing : ∀ e, Reach s root e → e.isContainer = true → s.leaves e ≠ []
  across : ∀ e o, Reach s root e → s.orientation? e = some o →
    ∀ a ∈ s.children e, ∀ b ∈ s.children e, o.across (s.extent a) = o.across (s.extent b)

/-- Whether all headers in a tree are cells. -/
def Headed (s : Store) (root : Element) : Prop :=
  ∀ e, Reach s root e → s.pendingHeader e = false

theorem Uniform.below (h : s.Uniform root) (reach : Reach s root e) : s.Uniform e :=
  ⟨fun x hx => h.bearing x (reach.trans hx), fun x o hx => h.across x o (reach.trans hx)⟩

/-- What has cells below it covers at least one row and one column. -/
theorem one_le_extent (wf : s.WellFormed) (bearing : s.leaves e ≠ []) (o : Orientation) :
    1 ≤ o.along (s.extent e) := by
  obtain ⟨c, hc⟩ := leaves_ne_nil_iff.1 bearing
  have inside := wf.acyclic.extent_le_of_reach (wf.acyclic.mem_leaves.1 hc)
  rw [wf.acyclic.extent_eq (.cell c)] at inside
  have merge : 1 ≤ o.along (s.cell c).merge := by
    cases o
    · exact (wf.merges c).2
    · exact (wf.merges c).1
  exact merge.trans ((Extent.le_iff o).1 inside).1

/-- Gaps take no space, so that in a uniform tree there is none. -/
theorem Uniform.bearing_child (h : s.Uniform root) (wf : s.WellFormed)
    (below : child ∈ s.children root) : s.leaves child ≠ [] := by
  by_cases hc : child.isContainer = true
  · exact h.bearing child (reach_of_child below) hc
  · intro bare
    have container := isContainer_of_child below
    obtain ⟨o, ho⟩ := orientation?_of_isContainer (s := s) container
    obtain ⟨c, hc'⟩ := leaves_ne_nil_iff.1 (h.bearing root .root container)
    obtain ⟨other, below', reach⟩ : ∃ other ∈ s.children root, c ∈ s.leaves other := by
      rcases (wf.acyclic.mem_leaves.1 hc').eq_or_child with same | ⟨other, below', reach⟩
      · subst same
        cases container
      · exact ⟨other, below', wf.acyclic.mem_leaves.2 reach⟩
    have wide := one_le_extent wf (leaves_ne_nil_iff.2 ⟨c, reach⟩) o.cross
    have same := h.across root o .root ho child below other below'
    have lone : asCell? child = none := by
      cases child with
      | cell d => exact absurd bare (by simp [leaves_cell wf.acyclic])
      | _ => rfl
    rw [wf.acyclic.extent_eq_zero (by simpa using hc) lone] at same
    have none : o.across ⟨0, 0⟩ = 0 := by cases o <;> rfl
    rw [none] at same
    exact absurd (wide.trans_eq same.symm) (by decide)

theorem foldl_max_eq {l : List Nat} {w : Nat} (positive : 1 ≤ w) (mem : w ∈ l)
    (same : ∀ n ∈ l, n = w) : l.foldl max 0 = w := by
  have low : w ≤ l.foldl max 0 := le_foldl_max_of_mem mem
  rcases List.mem_cons.1 (foldl_max_mem l 0) with zero | here
  · omega
  · exact same _ here

/-- The children of a container in a uniform tree fill it from end to end and from side to side. -/
theorem Uniform.fills (h : s.Uniform e) (wf : s.WellFormed) (headed : s.pendingHeader e = false)
    (ho : s.orientation? e = some o) (below : child ∈ s.children e) :
    o.along (s.extent e) = s.lengthAlong o (s.children e) ∧
      o.across (s.extent e) = o.across (s.extent child) := by
  have wide : 1 ≤ o.across (s.extent child) := one_le_extent wf (h.bearing_child wf below) o.cross
  have along : o.along (stacked o ((s.children e).map s.extent)) =
      s.lengthAlong o (s.children e) := by
    rw [stacked, Orientation.along_extent, List.map_map]
    rfl
  have across : o.across (stacked o ((s.children e).map s.extent)) = o.across (s.extent child) := by
    rw [stacked, Orientation.across_extent, List.map_map]
    refine foldl_max_eq wide (List.mem_map_of_mem below) fun n hn => ?_
    obtain ⟨x, hx, rfl⟩ := List.mem_map.1 hn
    exact h.across e o .root ho x hx child below
  rw [wf.acyclic.extent_eq]
  cases e with
  | vector v =>
      cases ho
      simp only [extentOver, headed, Orientation.along_extent, Orientation.across_extent, across]
      exact ⟨along, Nat.max_eq_left wide⟩
  | frame f =>
      cases ho
      exact ⟨along, across⟩
  | stack k =>
      cases ho
      exact ⟨along, across⟩
  | _ => cases ho

theorem lengthAlong_eq_zero_iff {l : List Element} (long : ∀ x ∈ l, 1 ≤ o.along (s.extent x)) :
    s.lengthAlong o l = 0 ↔ l = [] := by
  cases l with
  | nil => simp [lengthAlong]
  | cons x l =>
      have := long x (by simp)
      rw [lengthAlong_cons]
      constructor
      · omega
      · intro none
        cases none

/-- The part of a border that a child is handed is the part that its area touches. -/
theorem Uniform.forChild (h : s.Uniform e) (wf : s.WellFormed) (headed : s.pendingHeader e = false)
    (ho : s.orientation? e = some o) {before after : List Element}
    (split : s.children e = before ++ child :: after) (b : Border) (l : Location) :
    b.forChild before.length (s.children e).length o =
      b.clip ⟨along o l (s.lengthAlong o before), s.extent child⟩ ⟨l, s.extent e⟩ := by
  have below : child ∈ s.children e := by simp [split]
  obtain ⟨whole, across⟩ := h.fills wf headed ho below
  have long : ∀ x ∈ s.children e, 1 ≤ o.along (s.extent x) :=
    fun x hx => one_le_extent wf (h.bearing_child wf hx) o
  refine Border.forChild_eq_clip b ?_ ?_ ?_ across.symm
  · simp [split]
  · rw [lengthAlong_eq_zero_iff fun x hx => long x (by simp [split, hx])]
    exact List.length_eq_zero_iff.symm
  · have rest := lengthAlong_eq_zero_iff (s := s) (o := o) (l := after)
      fun x hx => long x (by simp [split, hx])
    rw [whole, split, lengthAlong_append, lengthAlong_cons, List.length_append, List.length_cons,
      ← List.length_eq_zero_iff (l := after)] at *
    omega

/-! ## Trees with one border -/

/-- The border of a container itself. -/
def ownBorder (s : Store) (e : Element) : Border :=
  ((s.attributes? e).map (·.border)).getD .unset

/-- Whether everything in a tree takes styles, and no border is set there but that of the root. -/
structure Outlined (s : Store) (root : Element) : Prop where
  handOn : ∀ e a, Reach s root e → s.attributes? e = some a → a.inheritsStyle = true
  styles : ∀ e a, Reach s root e → s.attributes? e = some a →
    a.cellStyle.border = .unset ∧ a.headerStyle.border = .unset
  cells : ∀ c ∈ s.leaves root, (s.cell c).inheritsStyle = true ∧ (s.cell c).style.border = .unset
  alone : ∀ e a, Reach s root e → e ≠ root → s.attributes? e = some a → a.border = .unset

theorem Outlined.below (h : s.Outlined root) (acyclic : s.Acyclic)
    (below : child ∈ s.children root) : s.Outlined child where
  handOn e a reach := h.handOn e a ((reach_of_child below).trans reach)
  styles e a reach := h.styles e a ((reach_of_child below).trans reach)
  cells c hc := h.cells c (acyclic.leaves_subset (reach_of_child below) hc)
  alone e a reach _ := h.alone e a ((reach_of_child below).trans reach) fun same =>
    acyclic root child below (same ▸ reach)

theorem Outlined.ownBorder_child (h : s.Outlined root) (acyclic : s.Acyclic)
    (below : child ∈ s.children root) : s.ownBorder child = .unset := by
  unfold ownBorder
  cases ha : s.attributes? child with
  | none => rfl
  | some a =>
      refine h.alone child a (reach_of_child below) (fun same => ?_) ha
      exact acyclic root child below (same ▸ .root)

/-- A cell gets the sides of the border around its tree that it touches. -/
theorem border_cascadeWithin {rank : Element → Nat} (isRank : s.IsRank rank) (wf : s.WellFormed)
    {fuel : Nat} {outer : Inherited} (enough : rank e ≤ fuel) (once : (s.leaves e).Nodup)
    (uniform : s.Uniform e) (headed : s.Headed e) (arranged : ∀ x, Reach s e x → Arranged s x)
    (outlined : s.Outlined e) (plain : outer.IsPlain) (hl : s.location? e = some l)
    (leaf : c ∈ s.leaves e) (inside : c.index < s.cells.size) (same : Restyles s t)
    (kept : t.cell c = s.cell c) :
    ∃ p, (s.cell c).location = some p ∧
      ((cascadeWithin fuel t e outer).cell c).style.border =
        ((s.ownBorder e).inherit outer.border).clip ⟨p, (s.cell c).merge⟩ ⟨l, s.extent e⟩ := by
  induction fuel generalizing t e outer l with
  | zero =>
      have := isRank.positive e
      omega
  | succ fuel ih =>
      rcases (wf.acyclic.mem_leaves.1 leaf).eq_or_child with rfl | ⟨child, below, reach⟩
      · obtain ⟨inherits, bare⟩ := outlined.cells c leaf
        rw [← same.size] at inside
        refine ⟨l, hl, ?_⟩
        rw [cascadeWithin_cell, cell_updateCell_self t _ inside, kept, styled, if_pos inherits,
          Inherited.border_applyTo plain, bare, wf.acyclic.extent_eq]
        exact (Border.clip_self _ _).symm
      · obtain ⟨a, o, ha, ho, step⟩ :=
          cascadeWithin_container fuel t outer (isContainer_of_child below)
        rw [same.attributes?] at ha
        rw [same.orientation?] at ho
        obtain ⟨before, after, split⟩ := List.append_of_mem below
        have leaf' := wf.acyclic.mem_leaves.2 reach
        have bearing := leaves_ne_nil_iff.2 ⟨c, leaf'⟩
        obtain ⟨t', same', kept', result⟩ :=
          cell_cascadeChildren_below child fuel (outer.within a) o (s.children e).length 0 same
            (shielded_siblings wf.acyclic once split leaf')
        have hl' := (arranged e .root).location_child ho hl split bearing
        obtain ⟨cell, header⟩ := outlined.styles e a .root ha
        have inner : ∀ x, Reach s child x → Arranged s x :=
          fun x hx => arranged x ((reach_of_child below).trans hx)
        have handed : Inherited.IsPlain { outer.within a with
            border := (outer.within a).border.forChild before.length (s.children e).length o } :=
          plain.within cell header
        obtain ⟨p, hp, border⟩ := ih (isRank.child_le below enough)
          (wf.acyclic.nodup_leaves_child once below) (uniform.below (reach_of_child below))
          (fun x hx => headed x ((reach_of_child below).trans hx)) inner
          (outlined.below wf.acyclic below) handed hl' leaf' same'
          (kept'.trans kept)
        refine ⟨p, hp, ?_⟩
        have own : s.ownBorder e = a.border := by simp [ownBorder, ha]
        obtain ⟨part, harea, within⟩ := leaf_within wf.acyclic inner hl' leaf'
        obtain rfl : ⟨p, (s.cell c).merge⟩ = part := by simpa [cellArea?, hp] using harea
        obtain ⟨l', there, within'⟩ := (arranged e .root).child_within wf.acyclic hl below bearing
        obtain rfl := Option.some.inj (hl'.symm.trans there)
        rw [step, if_pos (outlined.handOn e a .root ha), same.children]
        rw [Nat.zero_add, ← split] at result
        rw [result, border, outlined.ownBorder_child wf.acyclic below, Border.unset_inherit,
          uniform.forChild wf (headed e .root) ho split _ l, Border.clip_clip _ within within', own]
        rfl

/-! ## Trees that are placed -/

/-- All that is set about containers and cells, their locations apart. -/
def settings (s : Store) : (Element → Option Attributes) × (CellId → CellNode) :=
  (fun e => (s.attributes? e).map fun a => { a with location := none },
    fun c => { s.cell c with location := none })

theorem settings_setLocation (s : Store) (e : Element) (l : Location) :
    (s.setLocation e l).settings = s.settings := by
  have attributes : ∀ x, ((s.setLocation e l).attributes? x).map
      (fun a => { a with location := none }) =
        (s.attributes? x).map fun a => { a with location := none } := by
    intro x
    cases e with
    | vector v =>
        cases x with
        | vector w =>
            rcases vector_updateVector_cases s v w fun n => { n with attributes.location := some l }
              with h | h <;> simp [setLocation, updateAttributes, attributes?, h]
        | _ => rfl
    | frame f =>
        cases x with
        | frame g =>
            rcases frame_updateFrame_cases s f g fun n => { n with attributes.location := some l }
              with h | h <;> simp [setLocation, updateAttributes, attributes?, h]
        | _ => rfl
    | stack k =>
        cases x with
        | stack m =>
            rcases stack_updateStack_cases s k m fun n => { n with attributes.location := some l }
              with h | h <;> simp [setLocation, updateAttributes, attributes?, h]
        | _ => rfl
    | _ => rfl
  have cells : ∀ c, ({ (s.setLocation e l).cell c with location := none } : CellNode) =
      { s.cell c with location := none } := by
    intro c
    cases e with
    | cell d =>
        rcases cell_updateCell_cases s d c fun n => { n with location := some l } with h | h <;>
          simp [setLocation, h]
    | _ => rfl
  exact Prod.ext (funext attributes) (funext cells)

theorem settings_place (s : Store) (e : Element) (l : Location) :
    (s.place e l).settings = s.settings :=
  placeWithin_keeps settings_setLocation _ s e l

theorem attributes?_of_settings (same : t.settings = s.settings) {a : Attributes}
    (ha : t.attributes? e = some a) :
    ∃ a', s.attributes? e = some a' ∧ { a' with location := none } = { a with location := none } := by
  have h := congrFun (congrArg Prod.fst same) e
  simp only [settings, ha, Option.map_some] at h
  exact Option.map_eq_some_iff.1 h.symm

theorem Outlined.of_settings (h : s.Outlined root) (same : t.settings = s.settings)
    (reach : ∀ e, Reach t root e → Reach s root e) (leaves : t.leaves root = s.leaves root) :
    t.Outlined root where
  handOn e a below ha := by
    obtain ⟨a', ha', eq⟩ := attributes?_of_settings same ha
    exact (congrArg Attributes.inheritsStyle eq).symm.trans (h.handOn e a' (reach e below) ha')
  styles e a below ha := by
    obtain ⟨a', ha', eq⟩ := attributes?_of_settings same ha
    obtain ⟨cell, header⟩ := h.styles e a' (reach e below) ha'
    exact ⟨(congrArg (·.cellStyle.border) eq).symm.trans cell,
      (congrArg (·.headerStyle.border) eq).symm.trans header⟩
  cells c hc := by
    have eq := congrFun (congrArg Prod.snd same) c
    obtain ⟨inherits, border⟩ := h.cells c (leaves ▸ hc)
    exact ⟨(congrArg CellNode.inheritsStyle eq).trans inherits,
      (congrArg (·.style.border) eq).trans border⟩
  alone e a below other ha := by
    obtain ⟨a', ha', eq⟩ := attributes?_of_settings same ha
    exact (congrArg Attributes.border eq).symm.trans (h.alone e a' (reach e below) other ha')

theorem ownBorder_of_settings (same : t.settings = s.settings) (e : Element) :
    t.ownBorder e = s.ownBorder e := by
  have h := congrArg (Option.map Attributes.border) (congrFun (congrArg Prod.fst same) e)
  simp only [settings, Option.map_map] at h
  exact congrArg (Option.getD · .unset) h

theorem Moves.uniform {touched : Element → Prop} (h : Moves touched s t) (acyclic : s.Acyclic)
    (uniform : s.Uniform root) : t.Uniform root where
  bearing e reach hc := by
    rw [h.toAlike.leaves_eq acyclic]
    exact uniform.bearing e (h.reach.1 reach) hc
  across e o reach ho a ha b hb := by
    rw [h.extent_eq acyclic, h.extent_eq acyclic]
    rw [h.orientation] at ho
    rw [h.children] at ha hb
    exact uniform.across e o (h.reach.1 reach) ho a ha b hb

theorem pendingHeader_place (s : Store) (e x : Element) (l : Location) :
    (s.place e l).pendingHeader x = s.pendingHeader x := by
  have marks : (s.place e l).marks = s.marks := placeWithin_keeps marks_setLocation _ s e l
  cases x with
  | vector v =>
      obtain ⟨header, inserted⟩ := Prod.mk.inj (congrFun (congrArg Prod.snd marks) v)
      simp only [pendingHeader, header, inserted]
  | _ => rfl

theorem uniform_of_subtree (acyclic : s.Acyclic)
    (bearing : ∀ e ∈ s.subtree root, e.isContainer = true → s.leaves e ≠ [])
    (across : ∀ e ∈ s.subtree root, ∀ o ∈ s.orientation? e,
      ∀ a ∈ s.children e, ∀ b ∈ s.children e, o.across (s.extent a) = o.across (s.extent b)) :
    s.Uniform root :=
  ⟨fun e reach => bearing e (acyclic.mem_subtree.2 reach),
    fun e o reach ho => across e (acyclic.mem_subtree.2 reach) o ho⟩

theorem outlined_of_subtree (acyclic : s.Acyclic)
    (attributes : ∀ e ∈ s.subtree root, ∀ a ∈ s.attributes? e, a.inheritsStyle = true ∧
      a.cellStyle.border = .unset ∧ a.headerStyle.border = .unset)
    (cells : ∀ c ∈ s.leaves root,
      (s.cell c).inheritsStyle = true ∧ (s.cell c).style.border = .unset)
    (alone : ∀ child ∈ s.children root, ∀ e ∈ s.subtree child, ∀ a ∈ s.attributes? e,
      a.border = .unset) :
    s.Outlined root where
  handOn e a reach ha := (attributes e (acyclic.mem_subtree.2 reach) a ha).1
  styles e a reach ha := (attributes e (acyclic.mem_subtree.2 reach) a ha).2
  cells := cells
  alone e a reach other ha := by
    rcases reach.eq_or_child with same | ⟨child, below, reach⟩
    · exact absurd same other
    · exact alone child below e (acyclic.mem_subtree.2 reach) a ha

theorem headed_of_subtree (acyclic : s.Acyclic)
    (headed : ∀ e ∈ s.subtree root, s.pendingHeader e = false) : s.Headed root :=
  fun e reach => headed e (acyclic.mem_subtree.2 reach)

/-- Two columns side by side, the first with a merged cell, in a thick border. -/
def beside : Store where
  cells := ⟨#[{ value := .text "1", merge := ⟨2, 1⟩ }, { value := .text "2" },
    { value := .text "3" }]⟩
  vectors := ⟨#[{ orientation := .vertical, children := [.cell ⟨0⟩] },
    { orientation := .vertical, children := [.cell ⟨1⟩, .cell ⟨2⟩] }]⟩
  groups := ⟨#[
    { orientation := .horizontal
      children := [.vector ⟨0⟩, .vector ⟨1⟩]
      attributes := { border := Sides.uniform (.line .thick .black) } }]⟩

theorem beside_wellFormed : beside.WellFormed :=
  wellFormed_of_falling (fun | .stack _ => 2 | .vector _ => 1 | _ => 0) (by decide) (by decide)

/-- Two columns side by side, the header of the first not yet a cell, over a thick line. -/
def besideHeaded : Store where
  cells := ⟨#[{ value := .text "1" }, { value := .text "2" }, { value := .text "3" }]⟩
  vectors := ⟨#[{ orientation := .vertical, header := some "h", children := [.cell ⟨0⟩] },
    { orientation := .vertical, children := [.cell ⟨1⟩, .cell ⟨2⟩] }]⟩
  groups := ⟨#[
    { orientation := .horizontal
      children := [.vector ⟨0⟩, .vector ⟨1⟩]
      attributes := { border := { Border.unset with bottom := .line .thick .black } } }]⟩

theorem besideHeaded_wellFormed : besideHeaded.WellFormed :=
  wellFormed_of_falling (fun | .stack _ => 2 | .vector _ => 1 | _ => 0) (by decide) (by decide)

end Store

end Spreadsheet
