import Spreadsheet.Proofs.Resolve.Advance

/-!
# What is left to be done

The weight of an element counts the producers in the tree under it and the keys for which they wait.
A step at one container that lowers what is left below it lowers the weight of everything above it
and raises none.
-/

namespace Spreadsheet.Store

variable {s t u : Store} {roots : List Element}

/-! ## Weights -/

/-- What is left to be done at an element itself. -/
def ownWeight (s : Store) (e : Element) : Nat :=
  if isProducer e then 1 + (s.waitsFor e).length else 0

/-- What is left to be done in the tree under an element. -/
def weight (s : Store) (e : Element) : Nat :=
  s.pendingWeight [e]

theorem pendingWeight_nil (s : Store) : s.pendingWeight [] = 0 := rfl

theorem pendingWeight_append (s : Store) (roots more : List Element) :
    s.pendingWeight (roots ++ more) = s.pendingWeight roots + s.pendingWeight more := by
  simp only [pendingWeight, pending, List.flatMap_append, List.map_append, Number.total_append]

theorem pendingWeight_cons (s : Store) (e : Element) (rest : List Element) :
    s.pendingWeight (e :: rest) = s.weight e + s.pendingWeight rest :=
  pendingWeight_append s [e] rest

theorem Acyclic.weight_eq (h : s.Acyclic) (e : Element) :
    s.weight e = s.ownWeight e + s.pendingWeight (s.children e) := by
  have below : ((s.children e).flatMap s.subtree).filter isProducer = s.pending (s.children e) :=
    List.filter_flatMap
  rw [weight, pendingWeight, pending, List.flatMap_singleton, h.subtree_eq, List.filter_cons, below,
    ownWeight]
  split
  · rw [List.map_cons, Number.total_cons]
    rfl
  · rw [Nat.zero_add]
    rfl

theorem weight_pos (h : s.Acyclic) {e : Element} (producer : isProducer e = true) :
    0 < s.weight e := by
  rw [h.weight_eq, ownWeight, if_pos producer]
  omega

theorem pendingWeight_le (h : ∀ e ∈ roots, t.weight e ≤ s.weight e) :
    t.pendingWeight roots ≤ s.pendingWeight roots := by
  induction roots with
  | nil => exact le_refl _
  | cons e rest ih =>
      rw [pendingWeight_cons, pendingWeight_cons]
      exact Nat.add_le_add (h e (by simp)) (ih fun x hx => h x (List.mem_cons_of_mem _ hx))

theorem pendingWeight_lt (h : ∀ e ∈ roots, t.weight e ≤ s.weight e) {e : Element} (he : e ∈ roots)
    (falls : t.weight e < s.weight e) : t.pendingWeight roots < s.pendingWeight roots := by
  obtain ⟨before, after, rfl⟩ := List.append_of_mem he
  have first : t.pendingWeight before ≤ s.pendingWeight before :=
    pendingWeight_le fun x hx => h x (List.mem_append_left _ hx)
  have last : t.pendingWeight after ≤ s.pendingWeight after :=
    pendingWeight_le fun x hx => h x (List.mem_append_right _ (List.mem_cons_of_mem _ hx))
  simp only [pendingWeight_append, pendingWeight_cons]
  omega

theorem pendingWeight_eq_zero (h : ∀ root ∈ roots, ∀ e ∈ s.subtree root, isProducer e = false) :
    s.pendingWeight roots = 0 := by
  have none : s.pending roots = [] := by
    rw [pending, List.flatMap_eq_nil_iff]
    intro root hroot
    rw [List.filter_eq_nil_iff]
    intro e he
    rw [h root hroot e he]
    exact Bool.false_ne_true
  rw [pendingWeight, none]
  rfl

/-- When nothing waits for more than before and the weight below one container falls, no weight rises
and all weights above the container fall. -/
theorem weight_falls (hs : s.Acyclic) (ht : t.Acyclic)
    (closed : ∀ e child, child ∈ s.children e → s.InStore child)
    (waits : ∀ e, (t.waitsFor e).length ≤ (s.waitsFor e).length) {container : Element}
    (others : ∀ e, s.InStore e → e ≠ container → t.children e = s.children e)
    (here : (∀ child ∈ s.children container, t.weight child ≤ s.weight child) →
      t.pendingWeight (t.children container) < s.pendingWeight (s.children container))
    (e : Element) (he : s.InStore e) :
    t.weight e ≤ s.weight e ∧ (Reach s e container → t.weight e < s.weight e) := by
  induction e using hs.induction with
  | step e ih =>
      have below : ∀ child ∈ s.children e, t.weight child ≤ s.weight child :=
        fun child hchild => (ih child hchild (closed e child hchild)).1
      have own : t.ownWeight e ≤ s.ownWeight e := by
        have := waits e
        unfold ownWeight
        split <;> omega
      rw [hs.weight_eq, ht.weight_eq]
      by_cases same : e = container
      · subst same
        have := here below
        exact ⟨by omega, fun _ => by omega⟩
      · rw [others e he same]
        have rest := pendingWeight_le below
        refine ⟨by omega, fun reach => ?_⟩
        rcases reach.eq_or_child with here | ⟨child, hchild, reach⟩
        · exact absurd here.symm same
        · have := pendingWeight_lt below hchild ((ih child hchild (closed e child hchild)).2 reach)
          omega

/-! ## Lighter stores -/

/-- Whether a store came about by steps that raise no weight. -/
structure Eases (s t : Store) : Prop extends Evolves s t where
  weight : ∀ e, s.InStore e → t.weight e ≤ s.weight e

theorem Eases.trans (first : Eases s t) (second : Eases t u) : Eases s u where
  toEvolves := first.toEvolves.trans second.toEvolves
  weight e he := (second.weight e (first.held e he)).trans (first.weight e he)

theorem Eases.pendingWeight (h : Eases s t) (hroots : ∀ root ∈ roots, s.InStore root) :
    t.pendingWeight roots ≤ s.pendingWeight roots :=
  pendingWeight_le fun root hroot => h.weight root (hroots root hroot)

/-- Whether a store came about by steps below an element that leave less to be done there. -/
structure Lightens (root : Element) (s t : Store) : Prop extends Eases s t where
  falls : ∀ e, s.InStore e → Reach s e root → t.weight e < s.weight e
  kept : ∀ e, s.InStore e → ¬Reach s root e → t.children e = s.children e

theorem children_of_not_isContainer {e : Element} (h : e.isContainer = false) :
    s.children e = [] := by
  cases e <;> first | rfl | cases h

theorem Lightens.trans {root : Element} (hroot : s.InStore root) (first : Lightens root s t)
    (second : Lightens root t u) : Lightens root s u where
  toEases := first.toEases.trans second.toEases
  falls e he reach :=
    (second.weight e (first.held e he)).trans_lt (first.falls e he reach)
  kept e he apart := by
    cases container? : e.isContainer with
    | false => rw [children_of_not_isContainer container?, children_of_not_isContainer container?]
    | true =>
        have still : ¬Reach t root e := fun reach =>
          apart (first.reflects root e hroot he container? reach)
        exact (second.kept e (first.held e he) still).trans (first.kept e he apart)

/-- Steps below a child of an element are steps below the element. -/
theorem Lightens.under {e child : Element} (h : Lightens child s t) (below : child ∈ s.children e) :
    Lightens e s t where
  toEases := h.toEases
  falls x hx reach := h.falls x hx (reach.trans (reach_of_child below))
  kept x hx apart := h.kept x hx fun reach => apart ((reach_of_child below).trans reach)

/-- A step that changes the children of one container only. -/
theorem lightens_of_step (wf : s.WellFormed) (g : Evolves s t) {container : Element}
    (waits : ∀ e, (t.waitsFor e).length ≤ (s.waitsFor e).length)
    (others : ∀ e, s.InStore e → e ≠ container → t.children e = s.children e)
    (here : (∀ child ∈ s.children container, t.weight child ≤ s.weight child) →
      t.pendingWeight (t.children container) < s.pendingWeight (s.children container)) :
    Lightens container s t where
  toEvolves := g
  weight e he := (weight_falls wf.acyclic g.wf.acyclic wf.closed waits others here e he).1
  falls e he := (weight_falls wf.acyclic g.wf.acyclic wf.closed waits others here e he).2
  kept e he apart := others e he fun same => apart (same ▸ .root)

/-- A step after which a child waits for fewer keys. -/
theorem lightens_of_waits (wf : s.WellFormed) (g : Evolves s t) (h : Advances s t)
    {container child : Element} (below : child ∈ s.children container)
    (fewer : (t.waitsFor child).length < (s.waitsFor child).length) : Lightens container s t := by
  refine lightens_of_step wf g h.waits (fun e he _ => h.children e he) fun lighter => ?_
  rw [h.children container (inStore_of_child below)]
  refine pendingWeight_lt lighter below ?_
  have producer : isProducer child = true := by
    cases child <;> first | rfl | cases fewer
  have leaf : ∀ s : Store, s.children child = [] := fun s => by
    cases child <;> first | rfl | cases producer
  rw [wf.acyclic.weight_eq, g.wf.acyclic.weight_eq, leaf, leaf, ownWeight, ownWeight, if_pos producer,
    if_pos producer, pendingWeight_nil, pendingWeight_nil]
  omega

/-- A step that puts new elements without producers in the place of a producer. -/
theorem lightens_of_replace (wf : s.WellFormed) (g : Evolves s u) (h : Advances s u)
    {container child : Element} {before spliced rest : List Element} (hi : s.InStore container)
    (hc : container.isContainer = true) (split : s.children container = before ++ child :: rest)
    (producer : isProducer child = true)
    (new : ∀ z ∈ spliced, u.InStore z ∧ Apart s u z ∧ z.isSolid = true) :
    Lightens container s (u.setChildren container (before ++ spliced ++ rest)) := by
  have regroups := regroups_setChildren u container (before ++ spliced ++ rest)
  have self := children_setChildren_self (g.held container hi) hc (before ++ spliced ++ rest)
  have allowed : ∀ z ∈ (u.setChildren container (before ++ spliced ++ rest)).children container,
      Allowed s u container z := by
    intro z hz
    rw [self] at hz
    by_cases fresh : z ∈ spliced
    · exact .of_apart (new z fresh).1 (new z fresh).2.1
    · exact g.allowed_child wf (by rw [split]; simp at hz ⊢; tauto)
  have next := g.regroup wf hi hc regroups allowed
  have calls : ∀ e, (u.setChildren container (before ++ spliced ++ rest)).waitsFor e =
      u.waitsFor e := fun e => by cases container <;> exact waitsFor_congr (rfl) (rfl) e
  refine lightens_of_step wf next (fun e => ?_) (fun e he ne => ?_) fun lighter => ?_
  · rw [calls]
    exact h.waits e
  · exact (regroups.others e ne).trans (h.children e he)
  · have empty : (u.setChildren container (before ++ spliced ++ rest)).pendingWeight spliced = 0 := by
      refine pendingWeight_eq_zero fun z hz x hx => ?_
      have reach := next.wf.acyclic.mem_subtree.1 hx
      rcases regroups.reach_cases reach with reach | ⟨reach, -⟩
      · exact h.not_isProducer (new z hz).2.1 (new z hz).2.2 reach
      · exact absurd reach ((new z hz).2.1 container hc hi)
    rw [split] at lighter
    have first := pendingWeight_le fun x (hx : x ∈ before) => lighter x (by simp [hx])
    have last := pendingWeight_le fun x (hx : x ∈ rest) => lighter x (by simp [hx])
    have positive := weight_pos wf.acyclic producer
    rw [self, split]
    simp only [pendingWeight_append, pendingWeight_cons, empty]
    omega

end Spreadsheet.Store
