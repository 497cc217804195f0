import Spreadsheet.Proofs.Layout.Headers

/-!
# Margins and padding keep the trees

Space around an element puts stacks between it and its container.  Whatever was below the container
stays below it, and nothing but the new stacks comes to lie above the element.
-/

namespace Spreadsheet.StoreM

open Store

variable {s t u : Store}

/-! ## Around one element -/

/-- Whether an element stands around another, with nothing old between them. -/
structure Wraps (s t : Store) (inner outer : Element) : Prop where
  inStore : t.InStore outer
  reach : Reach t outer inner
  same : inner.isSolid = false → outer = inner
  only : ∀ b, b.isContainer = true → s.InStore b → Reach t outer b → Reach t inner b

theorem Wraps.refl {e : Element} (h : s.InStore e) : Wraps s s e e :=
  ⟨h, .root, fun _ => rfl, fun _ _ _ reach => reach⟩

theorem Wraps.earlier {inner outer : Element} (h : Wraps t u inner outer)
    (held : ∀ e, s.InStore e → t.InStore e) : Wraps s u inner outer where
  inStore := h.inStore
  reach := h.reach
  same := h.same
  only b hb old := h.only b hb (held b old)

theorem Wraps.later {inner outer : Element} {roots : List Element} (h : Wraps s t inner outer)
    (held : ∀ e, s.InStore e → t.InStore e) (g : Grows roots t u) : Wraps s u inner outer where
  inStore := g.held _ h.inStore
  reach := by
    cases solid : inner.isSolid with
    | false => rw [h.same solid]; exact .root
    | true => exact g.reach _ _ solid h.reach
  same := h.same
  only b hb old reach :=
    g.reach inner b (Element.isSolid_of_isContainer hb)
      (h.only b hb old (g.reflects outer b h.inStore (held b old) hb reach))

theorem Wraps.trans {a b c : Element} {roots : List Element} (first : Wraps s t a b)
    (held : ∀ e, s.InStore e → t.InStore e) (g : Grows roots t u) (second : Wraps t u b c) :
    Wraps s u a c := by
  have first := first.later held g
  refine ⟨second.inStore, second.reach.trans first.reach, fun solid => ?_, fun x hx old reach => ?_⟩
  · have same := first.same solid
    rw [second.same (by rwa [same]), same]
  · exact first.only x hx old (second.only x hx (held x old) reach)

theorem isContainer_of_mem_sideGap {z : Element} {size : Nat} {fill : Bool}
    (h : z ∈ sideGap size fill) : z.isContainer = false := by
  unfold sideGap at h
  split at h
  · cases h
  · rw [List.mem_singleton.1 h]
    rfl

theorem newStack_wraps (wf : s.WellFormed) {inner : Element} (solid : inner.isSolid = true)
    (hi : s.InStore inner) {n : StackNode} {before after : Nat} {fill : Bool}
    (hn : n.children = sideGap before fill ++ [inner] ++ sideGap after fill) {k : StackId}
    (h : Leads (newStack n) s k t) : Grows [] s t ∧ Wraps s t inner (.stack k) := by
  obtain ⟨rfl, rfl⟩ := leads_modifyGet.1 h
  have closed : ∀ e ∈ n.children, s.InStore e := by
    intro e he
    rw [hn, List.mem_append, List.mem_append, List.mem_singleton] at he
    rcases he with (he | rfl) | he
    · unfold sideGap at he
      split at he
      · cases he
      · rw [List.mem_singleton.1 he]; trivial
    · exact hi
    · unfold sideGap at he
      split at he
      · cases he
      · rw [List.mem_singleton.1 he]; trivial
  have self := children_addStack_self s n
  refine ⟨(adds_addStack s closed).grows wf, inStore_addStack s n, ?_, ?_, ?_⟩
  · refine reach_of_child ?_
    rw [self, hn]
    simp
  · intro gap
    rw [solid] at gap
    cases gap
  · intro b hb old reach
    rcases reach.eq_or_child with rfl | ⟨child, below, reach⟩
    · exact absurd old (not_inStore_addStack s n)
    · rw [self, hn, List.mem_append, List.mem_append, List.mem_singleton] at below
      rcases below with (below | rfl) | below
      · have := isContainer_of_reach reach hb
        rw [isContainer_of_mem_sideGap below] at this
        cases this
      · exact reach
      · have := isContainer_of_reach reach hb
        rw [isContainer_of_mem_sideGap below] at this
        cases this

theorem surround_wraps (wf : s.WellFormed) {inner outer : Element} (solid : inner.isSolid = true)
    (hi : s.InStore inner) {sides : Sides Nat} {fill : Bool}
    (h : Leads (surround inner sides fill) s outer t) : Grows [] s t ∧ Wraps s t inner outer := by
  simp only [surround, leads_bind, leads_get] at h
  obtain ⟨middle, s₁, first, _, _, ⟨rfl, rfl⟩, h⟩ := h
  have one := newStack_wraps wf solid hi rfl first
  have border : ∃ s₂ k n, Relabels s₁ s₂ ∧ outer = .stack k ∧
      n.children = sideGap sides.top fill ++ [.stack middle] ++ sideGap sides.bottom fill ∧
      Leads (newStack n) s₂ k t := by
    split at h
    case isTrue =>
      simp only [leads_bind, leads_modify, leads_pure] at h
      obtain ⟨_, _, rfl, k, _, second, rfl, rfl⟩ := h
      refine ⟨_, k, _, ?_, rfl, rfl, second⟩
      exact relabels_updateAttributes s₁ inner fun _ => rfl
    case isFalse =>
      simp only [leads_bind, leads_pure] at h
      obtain ⟨k, _, second, rfl, rfl⟩ := h
      exact ⟨s₁, k, _, .refl s₁, rfl, rfl, second⟩
  obtain ⟨s₂, k, n, relabels, rfl, hn, second⟩ := border
  have same : Grows [] s₁ s₂ := relabels.grows one.1.wf
  have g : Grows [] s s₂ := one.1.trans same
  have around := one.2.later one.1.held same
  have two := newStack_wraps g.wf rfl around.inStore hn second
  exact ⟨g.trans two.1, around.trans g.held two.1 two.2⟩

theorem isContainer_of_attributes? {e : Element} {a : Attributes} (h : s.attributes? e = some a) :
    e.isContainer = true := by
  cases e <;> first | rfl | cases h

theorem wrapChild_wraps (wf : s.WellFormed) {inFrame : Bool} {child : Element}
    (hi : s.InStore child) {r : Element × List Notice}
    (h : Leads (wrapChild inFrame child) s r t) : Grows [] s t ∧ Wraps s t child r.1 := by
  simp only [wrapChild, leads_bind, leads_get] at h
  obtain ⟨_, _, ⟨rfl, rfl⟩, h⟩ := h
  split at h
  case h_1 =>
    obtain ⟨rfl, rfl⟩ := leads_pure.1 h
    exact ⟨.refl wf, .refl hi⟩
  case h_2 a found =>
    have solid := Element.isSolid_of_isContainer (isContainer_of_attributes? found)
    split at h
    case isTrue =>
      obtain ⟨rfl, rfl⟩ := leads_pure.1 h
      exact ⟨.refl wf, .refl hi⟩
    case isFalse =>
      split at h
      case isTrue =>
        simp only [leads_bind, leads_get, leads_pure] at h
        obtain ⟨_, _, ⟨rfl, rfl⟩, rfl, rfl⟩ := h
        exact ⟨.refl wf, .refl hi⟩
      case isFalse =>
        have margin : ∀ padded m wrapped, Grows [] s m ∧ Wraps s m child padded →
            Leads (surround padded a.margin.resolved false) m wrapped t →
            Grows [] s t ∧ Wraps s t child wrapped := by
          intro padded m wrapped inner step
          have solid' := Element.isSolid_of_isContainer (isContainer_of_reach inner.2.reach
            (isContainer_of_attributes? found))
          have outer := surround_wraps inner.1.wf solid' inner.2.inStore step
          exact ⟨inner.1.trans outer.1, inner.2.trans inner.1.held outer.1 outer.2⟩
        split at h
        case isTrue =>
          split at h
          case isTrue =>
            simp only [leads_bind, leads_pure] at h
            obtain ⟨_, _, ⟨rfl, rfl⟩, _, _, ⟨rfl, rfl⟩, rfl, rfl⟩ := h
            exact ⟨.refl wf, .refl hi⟩
          case isFalse =>
            simp only [leads_bind, leads_pure] at h
            obtain ⟨_, _, ⟨rfl, rfl⟩, wrapped, _, step, rfl, rfl⟩ := h
            exact margin child s wrapped ⟨.refl wf, .refl hi⟩ step
        case isFalse =>
          split at h
          case isTrue =>
            simp only [leads_bind, leads_pure] at h
            obtain ⟨padded, _, step, _, _, ⟨rfl, rfl⟩, rfl, rfl⟩ := h
            exact surround_wraps wf solid hi step
          case isFalse =>
            simp only [leads_bind, leads_pure] at h
            obtain ⟨padded, m, first, wrapped, _, second, rfl, rfl⟩ := h
            exact margin padded m wrapped (surround_wraps wf solid hi first) second

/-! ## Around everything below -/

theorem wrapChildren_wraps {below : Element → StoreM (List Notice)} {inFrame : Bool}
    {children : List Element}
    (hbelow : ∀ child ∈ children, ∀ s n t, s.WellFormed → s.InStore child →
      Leads (below child) s n t → Grows [child] s t)
    (wf : s.WellFormed) (hi : ∀ child ∈ children, s.InStore child)
    {r : List Element × List Notice} (h : Leads (wrapChildren below inFrame children) s r t) :
    Grows children s t ∧ List.Forall₂ (Wraps s t) children r.1 := by
  induction children generalizing s r with
  | nil =>
      obtain ⟨rfl, rfl⟩ := leads_pure.1 h
      exact ⟨.refl wf, .nil⟩
  | cons child rest ih =>
      simp only [wrapChildren, leads_bind, leads_pure] at h
      obtain ⟨_, s₁, first, w, s₂, second, r', _, third, rfl, rfl⟩ := h
      have one := hbelow child (by simp) s _ s₁ wf (hi child (by simp)) first
      have two := wrapChild_wraps one.wf (one.held _ (hi child (by simp))) second
      have front : Grows [child] s s₂ := one.trans two.1
      have three := ih (fun c hc => hbelow c (List.mem_cons_of_mem _ hc)) front.wf
        (fun c hc => front.held c (hi c (List.mem_cons_of_mem _ hc))) third
      refine ⟨front.trans three.1, .cons ?_ (three.2.imp fun c w hw => hw.earlier front.held)⟩
      exact (two.2.earlier one.held).later front.held three.1

theorem wrapWithin_grows (fuel : Nat) {e : Element} (wf : s.WellFormed) (he : s.InStore e)
    {notices : List Notice} (h : Leads (wrapWithin fuel e) s notices t) : Grows [e] s t := by
  induction fuel generalizing s e notices t with
  | zero =>
      obtain ⟨-, rfl⟩ := leads_pure.1 h
      exact .refl wf
  | succ fuel ih =>
      simp only [wrapWithin] at h
      split at h
      case isTrue =>
        obtain ⟨-, rfl⟩ := leads_pure.1 h
        exact .refl wf
      case isFalse container =>
        have hc : e.isContainer = true := by simpa using container
        simp only [leads_bind, leads_get, leads_modify, leads_pure] at h
        obtain ⟨_, _, ⟨rfl, rfl⟩, r, u, wrapped, _, _, rfl, -, rfl⟩ := h
        have inside := fun child below => wf.closed e child below
        obtain ⟨g, wraps⟩ := wrapChildren_wraps
          (fun child _ s n t wf hi => ih wf hi) wf inside wrapped
        have same : u.children e = s.children e := by
          rcases g.kept e he with same | ⟨child, below, reach⟩
          · exact same.1
          · have reach := g.reflects child e (inside child below) he hc reach
            exact absurd reach (wf.acyclic e child below)
        have under : Grows [e] s u := g.under fun child below =>
          ⟨e, by simp, reach_of_child (same ▸ below)⟩
        refine under.setChildren wf he hc ⟨e, by simp, .root⟩ ?_ ?_ ?_
        · intro z hz
          obtain ⟨child, below, around⟩ := forall₂_right wraps hz
          exact ⟨around.inStore, fun b hb old reach => ⟨child, below, g.reflects child b
            (inside child below) old hb (around.only b hb old reach)⟩⟩
        · intro child below _
          rw [same] at below
          obtain ⟨z, hz, around⟩ := forall₂_left wraps below
          exact ⟨z, hz, around.reach⟩
        · intro v acyclic later o
          rw [same]
          refine covers_of_forall₂ ?_
          rw [List.forall₂_map_left_iff, List.forall₂_map_right_iff]
          refine wraps.imp fun child z around => ?_
          cases solid : child.isSolid with
          | false => rw [around.same solid]
          | true => exact acyclic.extent_le_of_reach (later z child solid around.reach)

theorem wrapSpacing_grows {e : Element} (wf : s.WellFormed) (he : s.InStore e)
    {notices : List Notice} (h : Leads (wrapSpacing e) s notices t) : Grows [e] s t := by
  simp only [wrapSpacing, leads_bind, leads_get] at h
  obtain ⟨_, _, ⟨rfl, rfl⟩, h⟩ := h
  exact wrapWithin_grows _ wf he h

end Spreadsheet.StoreM
