import Spreadsheet.Proofs.Store.Extents

/-!
# How a store evolves

Resolving and laying out only ever add nodes and give containers new children.  What every such step
keeps: the store stays well formed, and no old element comes to lie below another old one.
-/

namespace Spreadsheet.Store

variable {s t u v : Store}

/-- Whether the trees of a store are finite trees of its own nodes. -/
structure WellFormed (s : Store) : Prop where
  acyclic : s.Acyclic
  closed : ∀ e child, child ∈ s.children e → s.InStore child
  /-- Every cell covers at least one row and one column. -/
  merges : ∀ c, 1 ≤ (s.cell c).merge.rows ∧ 1 ≤ (s.cell c).merge.cols

theorem WellFormed.inStore_of_reach (h : s.WellFormed) {a b : Element} (ha : s.InStore a)
    (reach : Reach s a b) : s.InStore b := by
  induction reach with
  | root => exact ha
  | child _ below _ => exact h.closed _ _ below

theorem isContainer_of_reach {a b : Element} (h : Reach s a b) (hb : b.isContainer = true) :
    a.isContainer = true := by
  rcases h.eq_or_child with rfl | ⟨child, below, -⟩
  · exact hb
  · exact isContainer_of_child below

theorem not_reach_of_not_isContainer {a b : Element} (leaf : a.isContainer = false)
    (hb : b.isContainer = true) : ¬Reach s a b := by
  intro reach
  rw [isContainer_of_reach reach hb] at leaf
  cases leaf

/-- No container lies below an element that holds none. -/
theorem not_reach_of_flat {a b : Element}
    (flat : ∀ child ∈ s.children a, child.isContainer = false) (hb : b.isContainer = true)
    (other : b ≠ a) : ¬Reach s a b := by
  intro reach
  rcases reach.eq_or_child with same | ⟨child, below, reach⟩
  · exact other same
  · exact not_reach_of_not_isContainer (flat child below) hb reach

instance decidableInStore (s : Store) : (e : Element) → Decidable (s.InStore e)
  | .cell c => inferInstanceAs (Decidable (c.index < s.cells.size))
  | .vector v => inferInstanceAs (Decidable (v.index < s.vectors.size))
  | .frame f => inferInstanceAs (Decidable (f.index < s.frames.size))
  | .stack k => inferInstanceAs (Decidable (k.index < s.groups.size))
  | .gap _ | .expression _ | .call _ => .isTrue trivial

/-- Well-formedness can be computed, given a number that falls from containers to children. -/
theorem wellFormed_of_falling (rank : Element → Nat)
    (falls : ∀ e ∈ s.containers, ∀ child ∈ s.children e, rank child < rank e ∧ s.InStore child)
    (merges : ∀ i < s.cells.size, 1 ≤ (s.cell ⟨i⟩).merge.rows ∧ 1 ≤ (s.cell ⟨i⟩).merge.cols) :
    s.WellFormed where
  acyclic parent child below reach := by
    have falling : ∀ b, Reach s child b → rank b ≤ rank child := by
      intro b reach
      induction reach with
      | root => exact Nat.le_refl _
      | child _ below ih => exact (falls _ (mem_containers below) _ below).1.le.trans ih
    have first := (falls parent (mem_containers below) child below).1
    have last := falling parent reach
    omega
  closed e child below := (falls e (mem_containers below) child below).2
  merges c := by
    by_cases inside : c.index < s.cells.size
    · exact merges c.index inside
    · rw [cell, get_eq_default (Nat.le_of_not_lt inside)]
      exact ⟨Nat.le_refl 1, Nat.le_refl 1⟩

/-! ## Evolution -/

/-- What any number of steps keeps. -/
structure Evolves (s t : Store) : Prop where
  wf : t.WellFormed
  held : ∀ e, s.InStore e → t.InStore e
  /-- Old containers are below old elements only where they were before. -/
  reflects : ∀ a b, s.InStore a → s.InStore b → b.isContainer = true → Reach t a b → Reach s a b

theorem Evolves.refl (h : s.WellFormed) : Evolves s s :=
  ⟨h, fun _ he => he, fun _ _ _ _ _ reach => reach⟩

theorem Evolves.trans (first : Evolves s t) (second : Evolves t u) : Evolves s u where
  wf := second.wf
  held e he := second.held e (first.held e he)
  reflects a b ha hb hc reach :=
    first.reflects a b ha hb hc
      (second.reflects a b (first.held a ha) (first.held b hb) hc reach)

/-- Whether no container of an earlier store is below an element. -/
def Apart (s t : Store) (e : Element) : Prop :=
  ∀ b, b.isContainer = true → s.InStore b → ¬Reach t e b

theorem Apart.of_not_isContainer {e : Element} (h : e.isContainer = false) : Apart s t e :=
  fun _ hb _ => not_reach_of_not_isContainer h hb

theorem Apart.of_children {e : Element} (fresh : ¬s.InStore e)
    (h : ∀ child ∈ t.children e, Apart s t child) : Apart s t e := by
  intro b hb old reach
  rcases reach.eq_or_child with rfl | ⟨child, below, reach⟩
  · exact fresh old
  · exact h child below b hb old reach

theorem Apart.child {e child : Element} (h : Apart s t e) (below : child ∈ t.children e) :
    Apart s t child :=
  fun b hb old reach => h b hb old ((reach_of_child below).trans reach)

theorem Apart.later {e : Element} (h : Apart s t e) (held : ∀ b, s.InStore b → t.InStore b)
    (g : Evolves t u) (he : t.InStore e) : Apart s u e :=
  fun b hb old reach => h b hb old (g.reflects e b he (held b old) hb reach)

theorem Apart.earlier {e : Element} (h : Apart t u e) (held : ∀ b, s.InStore b → t.InStore b) :
    Apart s u e :=
  fun b hb old => h b hb (held b old)

/-! ## The same trees -/

/-- Whether two stores have the same nodes in the same trees. -/
structure Alike (s t : Store) : Prop where
  inStore : ∀ e, t.InStore e ↔ s.InStore e
  children : ∀ e, t.children e = s.children e
  merge : ∀ c, (t.cell c).merge = (s.cell c).merge

theorem Alike.refl (s : Store) : Alike s s :=
  ⟨fun _ => Iff.rfl, fun _ => rfl, fun _ => rfl⟩

theorem Alike.trans (first : Alike s t) (second : Alike t u) : Alike s u where
  inStore e := (second.inStore e).trans (first.inStore e)
  children e := (second.children e).trans (first.children e)
  merge c := (second.merge c).trans (first.merge c)

theorem Alike.symm (h : Alike s t) : Alike t s where
  inStore e := (h.inStore e).symm
  children e := (h.children e).symm
  merge c := (h.merge c).symm

theorem Alike.reach (h : Alike s t) {a b : Element} (reach : Reach t a b) : Reach s a b := by
  induction reach with
  | root => exact .root
  | child _ below ih => exact .child ih (h.children _ ▸ below)

theorem Alike.acyclic (h : Alike s t) (acyclic : s.Acyclic) : t.Acyclic :=
  fun parent child below reach => acyclic parent child (h.children parent ▸ below) (h.reach reach)

theorem Alike.wellFormed (h : Alike s t) (wf : s.WellFormed) : t.WellFormed where
  acyclic := h.acyclic wf.acyclic
  closed e child below := (h.inStore child).2 (wf.closed e child (h.children e ▸ below))
  merges c := h.merge c ▸ wf.merges c

theorem Alike.evolves (h : Alike s t) (wf : s.WellFormed) : Evolves s t where
  wf := h.wellFormed wf
  held e he := (h.inStore e).2 he
  reflects _ _ _ _ _ reach := h.reach reach

/-! ## New nodes -/

/-- Whether a store has more nodes, with none but old elements as children. -/
structure Extends (s t : Store) : Prop where
  held : ∀ e, s.InStore e → t.InStore e
  children : ∀ e, s.InStore e → t.children e = s.children e
  fresh : ∀ e child, ¬s.InStore e → child ∈ t.children e → s.InStore child
  merge : ∀ c, s.InStore (.cell c) → (t.cell c).merge = (s.cell c).merge
  merges : ∀ c, ¬s.InStore (.cell c) → 1 ≤ (t.cell c).merge.rows ∧ 1 ≤ (t.cell c).merge.cols

theorem Extends.reach (h : Extends s t) (wf : s.WellFormed) {a b : Element} (ha : s.InStore a)
    (reach : Reach t a b) : s.InStore b ∧ Reach s a b := by
  induction reach with
  | root => exact ⟨ha, .root⟩
  | child _ below ih =>
      rw [h.children _ ih.1] at below
      exact ⟨wf.closed _ _ below, .child ih.2 below⟩

theorem Extends.reach_later (h : Extends s t) {a b : Element} (reach : Reach s a b) :
    Reach t a b := by
  induction reach with
  | root => exact .root
  | child _ below ih =>
      rw [← h.children _ (inStore_of_child below)] at below
      exact .child ih below

theorem Extends.wellFormed (h : Extends s t) (wf : s.WellFormed) : t.WellFormed where
  acyclic parent child below reach := by
    by_cases old : s.InStore parent
    · rw [h.children parent old] at below
      exact wf.acyclic parent child below (h.reach wf (wf.closed _ _ below) reach).2
    · exact old (h.reach wf (h.fresh parent child old below) reach).1
  closed e child below := by
    by_cases old : s.InStore e
    · rw [h.children e old] at below
      exact h.held child (wf.closed _ _ below)
    · exact h.held child (h.fresh e child old below)
  merges c := by
    by_cases old : s.InStore (.cell c)
    · rw [h.merge c old]
      exact wf.merges c
    · exact h.merges c old

theorem Extends.evolves (h : Extends s t) (wf : s.WellFormed) : Evolves s t where
  wf := h.wellFormed wf
  held := h.held
  reflects _ _ ha _ _ reach := (h.reach wf ha reach).2

/-! ## New children -/

/-- Whether at most the children of one element differ. -/
structure Regroups (e : Element) (u v : Store) : Prop where
  inStore : ∀ x, v.InStore x ↔ u.InStore x
  others : ∀ x, x ≠ e → v.children x = u.children x
  merge : ∀ c, (v.cell c).merge = (u.cell c).merge

theorem Regroups.reach_cases {e : Element} (h : Regroups e u v) {a b : Element}
    (reach : Reach v a b) :
    Reach u a b ∨ Reach u a e ∧ ∃ z ∈ v.children e, Reach u z b := by
  induction reach with
  | root => exact .inl .root
  | @child parent child above below ih =>
      by_cases here : parent = e
      · subst here
        rcases ih with reach | ⟨reach, -⟩
        · exact .inr ⟨reach, child, below, .root⟩
        · exact .inr ⟨reach, child, below, .root⟩
      · rw [h.others parent here] at below
        rcases ih with reach | ⟨reach, z, hz, rest⟩
        · exact .inl (.child reach below)
        · exact .inr ⟨reach, z, hz, .child rest below⟩

theorem Regroups.apart {e z : Element} (h : Regroups e u v) (he : s.InStore e)
    (hc : e.isContainer = true) (apart : Apart s u z) : Apart s v z := by
  intro b hb old reach
  rcases h.reach_cases reach with reach | ⟨reach, -⟩
  · exact apart b hb old reach
  · exact apart e hc he reach

/-- Whether an element may become a child of a container of an earlier store: the old containers
below it were below the container. -/
def Allowed (s u : Store) (e z : Element) : Prop :=
  u.InStore z ∧ ∀ b, b.isContainer = true → s.InStore b → Reach u z b →
    ∃ child ∈ s.children e, Reach s child b

theorem Evolves.allowed_child (g : Evolves s u) (wf : s.WellFormed) {e z : Element}
    (h : z ∈ s.children e) : Allowed s u e z :=
  ⟨g.held z (wf.closed e z h), fun b hb old reach =>
    ⟨z, h, g.reflects z b (wf.closed e z h) old hb reach⟩⟩

theorem Allowed.of_apart {e z : Element} (hz : u.InStore z) (h : Apart s u z) : Allowed s u e z :=
  ⟨hz, fun b hb old reach => absurd reach (h b hb old)⟩

theorem Allowed.not_reach {e z : Element} (h : Allowed s u e z) (wf : s.WellFormed)
    (he : s.InStore e) (hc : e.isContainer = true) : ¬Reach u z e := by
  intro reach
  obtain ⟨child, below, reach⟩ := h.2 e hc he reach
  exact wf.acyclic e child below reach

theorem Regroups.acyclic {e : Element} (h : Regroups e u v) (wf : u.WellFormed)
    (apart : ∀ z ∈ v.children e, ¬Reach u z e) : v.Acyclic := by
  have stays : ∀ z ∈ v.children e, ∀ b, Reach v z b → Reach u z b := by
    intro z hz b reach
    rcases h.reach_cases reach with reach | ⟨reach, -⟩
    · exact reach
    · exact absurd reach (apart z hz)
  intro parent child below reach
  by_cases here : parent = e
  · subst here
    exact apart child below (stays child below _ reach)
  · rw [h.others parent here] at below
    rcases h.reach_cases reach with reach | ⟨above, z, hz, rest⟩
    · exact wf.acyclic parent child below reach
    · exact apart z hz (.trans (.child rest below) above)

theorem Evolves.regroup (g : Evolves s u) (wf : s.WellFormed) {e : Element} (he : s.InStore e)
    (hc : e.isContainer = true) (h : Regroups e u v)
    (allowed : ∀ z ∈ v.children e, Allowed s u e z) : Evolves s v where
  wf :=
    { acyclic := h.acyclic g.wf fun z hz => (allowed z hz).not_reach wf he hc
      closed := by
        intro x child below
        rw [h.inStore]
        by_cases here : x = e
        · subst here
          exact (allowed child below).1
        · rw [h.others x here] at below
          exact g.wf.closed x child below
      merges := fun c => h.merge c ▸ g.wf.merges c }
  held x hx := (h.inStore x).2 (g.held x hx)
  reflects a b ha hb hbc reach := by
    rcases h.reach_cases reach with reach | ⟨above, z, hz, rest⟩
    · exact g.reflects a b ha hb hbc reach
    · obtain ⟨child, below, rest⟩ := (allowed z hz).2 b hbc hb rest
      exact (g.reflects a e ha he hc above).trans ((reach_of_child below).trans rest)

end Spreadsheet.Store
