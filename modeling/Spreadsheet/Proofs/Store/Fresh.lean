import Spreadsheet.Proofs.Store.Updates
import Spreadsheet.Proofs.Monad
import Spreadsheet.Construct

/-!
# New elements

What is made of new nodes only has nothing old below it, so that it can be put anywhere.  No gaps
are made in this way.
-/

namespace Spreadsheet

open Store

namespace Store

variable {s t u : Store}

/-- Whether no child of an element is a gap. -/
def GapFree (s : Store) (e : Element) : Prop :=
  ∀ g, .gap g ∉ s.children e

/-- What filling gaps keeps, apart from what every layout keeps. -/
structure Fills (s t : Store) : Prop where
  children : ∀ e, s.InStore e → ∀ child ∈ s.children e, child.isSolid = true → child ∈ t.children e
  gapFree : ∀ e, s.InStore e → GapFree s e → GapFree t e
  fresh : ∀ e, ¬s.InStore e → GapFree t e

theorem gapFree_of_not_inStore {e : Element} (h : ¬s.InStore e) : GapFree s e := by
  intro g hg
  rw [children_of_not_inStore h] at hg
  cases hg

theorem Fills.refl (s : Store) : Fills s s where
  children _ _ _ below _ := below
  gapFree _ _ free := free
  fresh _ new := gapFree_of_not_inStore new

theorem Fills.trans (first : Fills s t) (held : ∀ e, s.InStore e → t.InStore e)
    (second : Fills t u) : Fills s u where
  children e he child below solid :=
    second.children e (held e he) child (first.children e he child below solid) solid
  gapFree e he free := second.gapFree e (held e he) (first.gapFree e he free)
  fresh e new := by
    by_cases old : t.InStore e
    · exact second.gapFree e old (first.fresh e new)
    · exact second.fresh e old

theorem Adds.fills (h : Adds s t) (fresh : ∀ e, ¬s.InStore e → GapFree t e) : Fills s t where
  children e he child below _ := by rwa [h.children e he]
  gapFree e he free g hg := free g (by rwa [h.children e he] at hg)
  fresh := fresh

theorem fills_setChildren (s : Store) {e : Element} (he : s.InStore e) (hc : e.isContainer = true)
    {l : List Element} (kept : ∀ child ∈ s.children e, child.isSolid = true → child ∈ l)
    (free : GapFree s e → ∀ g, .gap g ∉ l) : Fills s (s.setChildren e l) where
  children x _ child below solid := by
    by_cases here : x = e
    · subst here
      rw [children_setChildren_self he hc]
      exact kept child below solid
    · rwa [(regroups_setChildren s e l).others x here]
  gapFree x _ old g hg := by
    by_cases here : x = e
    · subst here
      rw [children_setChildren_self he hc] at hg
      exact free old g hg
    · rw [(regroups_setChildren s e l).others x here] at hg
      exact old g hg
  fresh x new := by
    refine gapFree_of_not_inStore fun inside => new ?_
    exact ((regroups_setChildren s e l).inStore x).1 inside

/-- Whether an element is new since an earlier store, with nothing old below it. -/
structure Fresh (s t : Store) (e : Element) : Prop where
  inStore : t.InStore e
  solid : e.isSolid = true
  apart : Apart s t e

theorem Fresh.later {e : Element} (h : Fresh s t e) (held : ∀ b, s.InStore b → t.InStore b)
    (g : Evolves t u) : Fresh s u e :=
  ⟨g.held e h.inStore, h.solid, h.apart.later held g h.inStore⟩

theorem Fresh.earlier {e : Element} (h : Fresh t u e) (held : ∀ b, s.InStore b → t.InStore b) :
    Fresh s u e :=
  ⟨h.inStore, h.solid, h.apart.earlier held⟩

end Store

namespace StoreM

variable {s t : Store}

/-! ## Making nodes -/

theorem newCell_makes (wf : s.WellFormed) {n : CellNode}
    (merge : 1 ≤ n.merge.rows ∧ 1 ≤ n.merge.cols) {c : CellId}
    (h : Leads (newCell n) s c t) : Grows [] s t ∧ Fills s t ∧ Fresh s t (.cell c) := by
  obtain ⟨rfl, rfl⟩ := leads_modifyGet.1 h
  have adds := adds_addCell s merge
  refine ⟨adds.grows wf, adds.fills fun e new => ?_, inStore_addCell s n, rfl, ?_⟩
  · intro g hg
    rw [children_addCell, children_of_not_inStore new] at hg
    cases hg
  · exact .of_not_isContainer rfl

theorem newVector_makes (wf : s.WellFormed) {n : VectorNode} (solid : ∀ g, .gap g ∉ n.children)
    (closed : ∀ e ∈ n.children, s.InStore e) {v : VectorId} (h : Leads (newVector n) s v t) :
    Grows [] s t ∧ Fills s t ∧ t.InStore (.vector v) ∧ ¬s.InStore (.vector v) ∧
      t.children (.vector v) = n.children := by
  obtain ⟨rfl, rfl⟩ := leads_modifyGet.1 h
  have adds := adds_addVector s closed
  refine ⟨adds.grows wf, adds.fills fun e new => ?_, inStore_addVector s n,
    not_inStore_addVector s n, children_addVector_self s n⟩
  intro g hg
  cases e with
  | vector w =>
      rw [children, vector_addVector_eq] at hg
      split at hg
      case isTrue => exact solid g hg
      case isFalse => exact gapFree_of_not_inStore new g hg
  | _ => exact gapFree_of_not_inStore (s := s) new g hg

theorem newFrame_makes (wf : s.WellFormed) {n : FrameNode} (solid : ∀ g, .gap g ∉ n.children)
    (closed : ∀ e ∈ n.children, s.InStore e) {f : FrameId} (h : Leads (newFrame n) s f t) :
    Grows [] s t ∧ Fills s t ∧ t.InStore (.frame f) ∧ ¬s.InStore (.frame f) ∧
      t.children (.frame f) = n.children := by
  obtain ⟨rfl, rfl⟩ := leads_modifyGet.1 h
  have adds := adds_addFrame s closed
  refine ⟨adds.grows wf, adds.fills fun e new => ?_, inStore_addFrame s n,
    not_inStore_addFrame s n, children_addFrame_self s n⟩
  intro g hg
  cases e with
  | frame w =>
      rw [children, frame_addFrame_eq] at hg
      split at hg
      case isTrue => exact solid g hg
      case isFalse => exact gapFree_of_not_inStore new g hg
  | _ => exact gapFree_of_not_inStore (s := s) new g hg

/-- A list made one by one. -/
theorem makes_mapM {α β : Type} (toElement : β → Element) {l : List α} {f : α → StoreM β}
    (wf : s.WellFormed) {bs : List β}
    (each : ∀ a s b t, s.WellFormed → Leads (f a) s b t →
      Grows [] s t ∧ Fills s t ∧ Fresh s t (toElement b))
    (h : Leads (l.mapM f) s bs t) :
    Grows [] s t ∧ Fills s t ∧ ∀ b ∈ bs, Fresh s t (toElement b) := by
  have run := h.mapM (fun u => Grows [] s u ∧ Fills s u)
    (fun _ b u => s.WellFormed → Grows [] s u → Fresh s u (toElement b)) ⟨.refl wf, .refl s⟩ ?_
  · refine ⟨run.1.1, run.1.2, fun b hb => ?_⟩
    obtain ⟨i, -, fresh⟩ := forall₂_right run.2.1 hb
    exact fresh wf run.1.1
  · rintro i - m b u ⟨g, fills⟩ step
    obtain ⟨g', fills', fresh⟩ := each i m b u g.wf step
    refine ⟨⟨g.trans g', fills.trans g.held fills'⟩, fun _ _ => fresh.earlier g.held, ?_⟩
    intro _ b' old _ _
    exact (old wf g).later g.held g'.toEvolves

theorem apart_of_fresh {e : Element} {l : List Element} (new : ¬s.InStore e)
    (children : t.children e = l) (fresh : ∀ z ∈ l, Apart s t z) : Apart s t e :=
  .of_children new fun child below => fresh child (children ▸ below)

theorem gap_not_mem_of_fresh {l : List Element} (fresh : ∀ z ∈ l, Fresh s t z) (g : Gap) :
    .gap g ∉ l := by
  intro hg
  have := (fresh _ hg).solid
  cases this

/-- A vector of new elements. -/
theorem newVector_fresh {m : Store} (g : Grows [] s m) (fills : Fills s m) {n : VectorNode}
    (fresh : ∀ z ∈ n.children, Fresh s m z) {v : VectorId} (h : Leads (newVector n) m v t) :
    Grows [] s t ∧ Fills s t ∧ Fresh s t (.vector v) := by
  obtain ⟨g', fills', inside, new, children⟩ := newVector_makes g.wf
    (gap_not_mem_of_fresh fresh) (fun e he => (fresh e he).inStore) h
  refine ⟨g.trans g', fills.trans g.held fills', inside, rfl, ?_⟩
  refine apart_of_fresh (fun old => new (g.held _ old)) children fun z hz => ?_
  exact ((fresh z hz).later g.held g'.toEvolves).apart

/-- A frame of new elements. -/
theorem newFrame_fresh {m : Store} (g : Grows [] s m) (fills : Fills s m) {n : FrameNode}
    (fresh : ∀ z ∈ n.children, Fresh s m z) {f : FrameId} (h : Leads (newFrame n) m f t) :
    Grows [] s t ∧ Fills s t ∧ Fresh s t (.frame f) := by
  obtain ⟨g', fills', inside, new, children⟩ := newFrame_makes g.wf
    (gap_not_mem_of_fresh fresh) (fun e he => (fresh e he).inStore) h
  refine ⟨g.trans g', fills.trans g.held fills', inside, rfl, ?_⟩
  refine apart_of_fresh (fun old => new (g.held _ old)) children fun z hz => ?_
  exact ((fresh z hz).later g.held g'.toEvolves).apart

end StoreM

end Spreadsheet
