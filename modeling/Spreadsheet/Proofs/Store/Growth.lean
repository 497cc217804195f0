import Spreadsheet.Proofs.Store.Evolution

/-!
# How a layout grows

Laying out the trees under some roots changes nothing but what lies below the roots in the end.  The
cells and containers that were below an element stay below it, cells keep their size, and extents do
not shrink.
-/

namespace Spreadsheet

/-- Whether an element is there to stay: not a gap, and nothing that waits to be replaced. -/
def Element.isSolid : Element → Bool
  | .gap _ | .expression _ | .call _ => false
  | _ => true

theorem Element.isSolid_of_isContainer {e : Element} (h : e.isContainer = true) :
    e.isSolid = true := by
  cases e <;> first | rfl | cases h

namespace Store

variable {s t u v : Store} {roots more : List Element}

/-- The location of an element itself. -/
def location? (s : Store) : Element → Option Location
  | .cell c => (s.cell c).location
  | e => (s.attributes? e).bind (·.location)

/-- What a layout of the trees under some roots keeps. -/
structure Grows (roots : List Element) (s t : Store) : Prop extends Evolves s t where
  reach : ∀ a b, b.isSolid = true → Reach s a b → Reach t a b
  /-- Whatever changes is below a root. -/
  kept : ∀ e, s.InStore e →
    (t.children e = s.children e ∧ t.location? e = s.location? e) ∨ ∃ r ∈ roots, Reach t r e
  merge : ∀ c, s.InStore (.cell c) → (t.cell c).merge = (s.cell c).merge
  extent : ∀ e, s.InStore e → s.extent e ≤ t.extent e

theorem Grows.refl (h : s.WellFormed) : Grows roots s s where
  toEvolves := .refl h
  reach _ _ _ reach := reach
  kept _ _ := .inl ⟨rfl, rfl⟩
  merge _ _ := rfl
  extent _ _ := le_refl _

theorem not_isProducer_of_isSolid {e : Element} (h : e.isSolid = true) : isProducer e = false := by
  cases e <;> first | rfl | cases h

theorem not_isProducer_of_isContainer {e : Element} (h : e.isContainer = true) :
    isProducer e = false :=
  not_isProducer_of_isSolid (Element.isSolid_of_isContainer h)

theorem bare_of_not_isSolid {e : Element} (h : e.isSolid = false) :
    s.children e = [] ∧ s.location? e = none := by
  cases e <;> first | exact ⟨rfl, rfl⟩ | cases h

theorem Grows.trans (first : Grows roots s t) (second : Grows more t u) :
    Grows (roots ++ more) s u where
  toEvolves := first.toEvolves.trans second.toEvolves
  reach a b solid reach := second.reach a b solid (first.reach a b solid reach)
  kept e he := by
    cases solid : e.isSolid with
    | false =>
        have old := bare_of_not_isSolid (s := s) solid
        have new := bare_of_not_isSolid (s := u) solid
        exact .inl ⟨new.1.trans old.1.symm, new.2.trans old.2.symm⟩
    | true =>
        rcases first.kept e he with same | ⟨r, hr, reach⟩
        · rcases second.kept e (first.held e he) with same' | ⟨r, hr, reach⟩
          · exact .inl ⟨same'.1.trans same.1, same'.2.trans same.2⟩
          · exact .inr ⟨r, List.mem_append_right _ hr, reach⟩
        · exact .inr ⟨r, List.mem_append_left _ hr, second.reach r e solid reach⟩
  merge c hc := (second.merge c (first.held _ hc)).trans (first.merge c hc)
  extent e he := (first.extent e he).trans (second.extent e (first.held e he))

/-- The roots may be replaced by elements above them. -/
theorem Grows.under (g : Grows roots s t) (h : ∀ r ∈ roots, ∃ r' ∈ more, Reach t r' r) :
    Grows more s t where
  toEvolves := g.toEvolves
  reach := g.reach
  kept e he := by
    rcases g.kept e he with same | ⟨r, hr, reach⟩
    · exact .inl same
    · obtain ⟨r', hr', above⟩ := h r hr
      exact .inr ⟨r', hr', above.trans reach⟩
  merge := g.merge
  extent := g.extent

theorem Grows.trans_same {root : Element} (first : Grows [root] s t) (second : Grows [root] t u) :
    Grows [root] s u :=
  (first.trans second).under fun _ hr => ⟨root, by simp, by
    rcases List.mem_append.1 hr with hr | hr
    · rw [List.mem_singleton.1 hr]; exact .root
    · rw [List.mem_singleton.1 hr]; exact .root⟩

theorem Grows.of_nil (g : Grows [] s t) : Grows roots s t :=
  g.under fun _ hr => by cases hr

/-! ## Kinds of steps -/

theorem Grows.of_alike (wf : s.WellFormed) (h : Alike s t)
    (location : ∀ e, t.location? e = s.location? e ∨ ∃ r ∈ roots, Reach s r e)
    (extents : ∀ e below, s.extentOver below e ≤ t.extentOver below e) : Grows roots s t where
  toEvolves := h.evolves wf
  reach _ _ _ reach := h.symm.reach reach
  kept e he := by
    rcases location e with same | ⟨r, hr, reach⟩
    · exact .inl ⟨h.children e, same⟩
    · exact .inr ⟨r, hr, h.symm.reach reach⟩
  merge c _ := h.merge c
  extent := wf.acyclic.extent_mono (h.wellFormed wf).acyclic wf.closed fun e _ => by
    rw [h.children e]
    exact extents e _

theorem Grows.of_extends (wf : s.WellFormed) (h : Extends s t)
    (location : ∀ e, s.InStore e → t.location? e = s.location? e)
    (extents : ∀ e, s.InStore e → ∀ below, t.extentOver below e = s.extentOver below e) :
    Grows roots s t where
  toEvolves := h.evolves wf
  reach _ _ _ reach := h.reach_later reach
  kept e he := .inl ⟨h.children e he, location e he⟩
  merge := h.merge
  extent := wf.acyclic.extent_mono (h.wellFormed wf).acyclic wf.closed fun e he => by
    rw [h.children e he, extents e he]

theorem Regroups.reach_later {e : Element} (h : Regroups e u v)
    (apart : ∀ z ∈ v.children e, ¬Reach u z e)
    (covers : ∀ child ∈ u.children e, child.isSolid = true → ∃ z ∈ v.children e, Reach u z child)
    {a b : Element} (solid : b.isSolid = true) (reach : Reach u a b) : Reach v a b := by
  have stays : ∀ z ∈ v.children e, ∀ b, Reach u z b → Reach v z b := by
    intro z hz b reach
    induction reach with
    | root => exact .root
    | @child parent child above below ih =>
        have here : parent ≠ e := fun here => apart z hz (here ▸ above)
        rw [← h.others parent here] at below
        exact .child ih below
  induction reach with
  | root => exact .root
  | @child parent child above below ih =>
      have reach := ih (Element.isSolid_of_isContainer (isContainer_of_child below))
      by_cases here : parent = e
      · subst here
        obtain ⟨z, hz, rest⟩ := covers child below solid
        exact (Reach.child reach hz).trans (stays z hz child rest)
      · rw [← h.others parent here] at below
        exact .child reach below

theorem Grows.regroup (g : Grows roots s u) (wf : s.WellFormed) {e : Element} (he : s.InStore e)
    (hc : e.isContainer = true) (h : Regroups e u v) (below : ∃ r ∈ roots, Reach s r e)
    (allowed : ∀ z ∈ v.children e, Allowed s u e z)
    (covers : ∀ child ∈ u.children e, child.isSolid = true → ∃ z ∈ v.children e, Reach u z child)
    (location : ∀ x, v.location? x = u.location? x)
    (others : ∀ x, x ≠ e → ∀ below, u.extentOver below x ≤ v.extentOver below x)
    (wide : v.Acyclic → (∀ a b, b.isSolid = true → Reach u a b → Reach v a b) →
      u.extentOver ((u.children e).map v.extent) e ≤
        v.extentOver ((v.children e).map v.extent) e) : Grows roots s v := by
  have apart : ∀ z ∈ v.children e, ¬Reach u z e :=
    fun z hz => (allowed z hz).not_reach wf he hc
  have acyclic := h.acyclic g.wf apart
  have later : ∀ a b, b.isSolid = true → Reach u a b → Reach v a b :=
    fun a b solid reach => h.reach_later apart covers solid reach
  exact
    { toEvolves := g.toEvolves.regroup wf he hc h allowed
      reach := fun a b solid reach => later a b solid (g.reach a b solid reach)
      kept := by
        intro x hx
        by_cases here : x = e
        · subst here
          obtain ⟨r, hr, reach⟩ := below
          have solid := Element.isSolid_of_isContainer hc
          exact .inr ⟨r, hr, later r x solid (g.reach r x solid reach)⟩
        · cases solid : x.isSolid with
          | false =>
              have old := bare_of_not_isSolid (s := s) solid
              have new := bare_of_not_isSolid (s := v) solid
              exact .inl ⟨new.1.trans old.1.symm, new.2.trans old.2.symm⟩
          | true =>
              rcases g.kept x hx with same | ⟨r, hr, reach⟩
              · exact .inl ⟨(h.others x here).trans same.1, (location x).trans same.2⟩
              · exact .inr ⟨r, hr, later r x solid reach⟩
      merge := fun c hc => (h.merge c).trans (g.merge c hc)
      extent := by
        intro x hx
        refine (g.extent x hx).trans ?_
        refine g.wf.acyclic.extent_mono acyclic g.wf.closed ?_ x (g.held x hx)
        intro y _
        by_cases here : y = e
        · subst here
          exact wide acyclic later
        · rw [h.others y here]
          exact others y here _ }

end Store

end Spreadsheet
