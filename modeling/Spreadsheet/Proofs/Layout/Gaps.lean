import Spreadsheet.Proofs.Layout.Spacing
import Spreadsheet.Proofs.Store.Fresh

/-!
# No gap is left

Gaps are replaced by new cells, vectors and frames in which there are no gaps.  The walk goes as deep
as the tree does, so that no container below the root keeps a gap.
-/

namespace Spreadsheet.StoreM

open Store

variable {s t : Store}

/-! ## New blocks -/

/-- Whether an operation only makes new elements, without gaps in them. -/
def Makes (m : StoreM (List Element)) : Prop :=
  ∀ s l t, s.WellFormed → Leads m s l t → Grows [] s t ∧ Fills s t ∧ ∀ z ∈ l, Fresh s t z

theorem gapCells_makes (g : Gap) (count : Nat) : Makes (gapCells g count) := by
  intro s l t wf h
  refine makes_mapM id wf ?_ h
  intro _ s b t wf step
  simp only [leads_bind, leads_pure] at step
  obtain ⟨c, _, made, rfl, rfl⟩ := step
  exact newCell_makes wf ⟨Nat.le_refl 1, Nat.le_refl 1⟩ made

theorem gapVector_makes (wf : s.WellFormed) {g : Gap} {o : Orientation} {length : Nat}
    {v : VectorId} (h : Leads (gapVector g o length) s v t) :
    Grows [] s t ∧ Fills s t ∧ Fresh s t (.vector v) := by
  simp only [gapVector, leads_bind] at h
  obtain ⟨cells, m, first, second⟩ := h
  obtain ⟨g', fills, fresh⟩ := gapCells_makes g length s cells m wf first
  exact newVector_fresh g' fills fresh second

theorem gapVectors_makes (g : Gap) (o : Orientation) (length : Nat) :
    Makes (gapVectors g o length) := by
  intro s l t wf h
  simp only [gapVectors, leads_bind, leads_pure] at h
  obtain ⟨vectors, _, made, rfl, rfl⟩ := h
  obtain ⟨g', fills, fresh⟩ := makes_mapM .vector wf
    (fun _ s v t wf step => gapVector_makes wf step) made
  refine ⟨g', fills, fun z hz => ?_⟩
  obtain ⟨v, hv, rfl⟩ := List.mem_map.1 hz
  exact fresh v hv

theorem gapBlock_makes (g : Gap) (o : Orientation) (across : Nat) :
    Makes (do return [← gapBlock g o across]) := by
  intro s l t wf h
  simp only [gapBlock, leads_bind, leads_pure] at h
  obtain ⟨_, _, ⟨vectors, m, first, f, _, second, rfl, rfl⟩, rfl, rfl⟩ := h
  obtain ⟨g', fills, fresh⟩ := gapVectors_makes g o.cross across s vectors m wf first
  obtain ⟨g'', fills', fresh'⟩ := newFrame_fresh g' fills fresh second
  refine ⟨g'', fills', fun z hz => ?_⟩
  rwa [List.mem_singleton.1 hz]

/-! ## In place of the gaps of a container -/

/-- What stands for a child once gaps are replaced. -/
structure Replaced (s t : Store) (child : Element) (new : List Element) : Prop where
  gap : ∀ g, child = .gap g → ∀ z ∈ new, Fresh s t z
  other : (∀ g, child ≠ .gap g) → new = [child]

theorem covers_replaced {v : Store} (acyclic : v.Acyclic) (o : Orientation)
    {children : List Element} {lists : List (List Element)}
    (h : List.Forall₂ (Replaced s t) children lists) :
    Covers o (children.map v.extent) (lists.flatten.map v.extent) := by
  induction h with
  | nil => exact covers_refl o []
  | @cons child new children lists stands _ ih =>
      rw [List.map_cons, List.flatten_cons, List.map_append]
      have here : Covers o [v.extent child] (new.map v.extent) := by
        by_cases gap : ∃ g, child = .gap g
        · obtain ⟨g, rfl⟩ := gap
          rw [acyclic.extent_eq]
          exact covers_empty o _
        · rw [stands.other fun g hg => gap ⟨g, hg⟩]
          exact covers_refl o _
      exact here.append ih

theorem replaceGaps_fills (wf : s.WellFormed) {e : Element} (he : s.InStore e)
    (hc : e.isContainer = true) {replacement : Gap → StoreM (List Element)}
    (makes : ∀ g, Makes (replacement g)) {r : Unit} (h : Leads (replaceGaps e replacement) s r t) :
    Grows [e] s t ∧ Fills s t ∧ GapFree t e := by
  simp only [replaceGaps, leads_bind, leads_get, leads_modify] at h
  obtain ⟨_, _, ⟨rfl, rfl⟩, lists, u, made, rfl⟩ := h
  have run := made.mapM (fun u => Grows [] s u ∧ Fills s u)
    (fun child new u => s.WellFormed → Grows [] s u → Replaced s u child new)
    ⟨.refl wf, .refl s⟩ ?_
  · obtain ⟨⟨g, fills⟩, each, -⟩ := run
    have same : u.children e = s.children e := by
      rcases g.kept e he with same | ⟨_, none, -⟩
      · exact same.1
      · cases none
    have replaced := each.imp fun _ _ h => h wf g
    have source : ∀ z ∈ lists.flatten, Fresh s u z ∨ z ∈ s.children e ∧ ∀ g, z ≠ .gap g := by
      intro z hz
      obtain ⟨new, hnew, hz⟩ := List.mem_flatten.1 hz
      obtain ⟨child, below, stands⟩ := forall₂_right replaced hnew
      by_cases gap : ∃ g, child = .gap g
      · obtain ⟨g, hg⟩ := gap
        exact .inl (stands.gap g hg z hz)
      · have other : ∀ g, child ≠ .gap g := fun g hg => gap ⟨g, hg⟩
        rw [stands.other other, List.mem_singleton] at hz
        exact .inr (hz ▸ ⟨below, other⟩)
    have kept : ∀ child ∈ s.children e, child.isSolid = true → child ∈ lists.flatten := by
      intro child below solid
      obtain ⟨new, hnew, stands⟩ := forall₂_left replaced below
      have other : ∀ g, child ≠ .gap g := fun g hg => by rw [hg] at solid; cases solid
      exact List.mem_flatten.2 ⟨new, hnew, by rw [stands.other other]; simp⟩
    have free : ∀ g, .gap g ∉ lists.flatten := by
      intro g hg
      rcases source _ hg with fresh | ⟨-, other⟩
      · cases fresh.solid
      · exact other g rfl
    refine ⟨?_, ?_, ?_⟩
    · refine (g.of_nil : Grows [e] s u).setChildren wf he hc ⟨e, by simp, .root⟩ ?_ ?_ ?_
      · intro z hz
        rcases source z hz with fresh | ⟨below, -⟩
        · exact .of_apart fresh.inStore fresh.apart
        · exact g.allowed_child wf below
      · intro child below solid
        exact ⟨child, kept child (same ▸ below) solid, .root⟩
      · intro v acyclic _ o
        rw [same]
        exact covers_replaced acyclic o replaced
    · refine fills.trans g.held (fills_setChildren u (g.held e he) hc ?_ fun _ => free)
      rwa [same]
    · intro gap
      rw [children_setChildren_self (g.held e he) hc]
      exact free gap
  · rintro child - m new u ⟨g, fills⟩ step
    have next : Grows [] m u ∧ Fills m u ∧ Replaced m u child new := by
      cases child with
      | gap gap =>
          obtain ⟨g', fills', fresh⟩ := makes gap m new u g.wf step
          exact ⟨g', fills', ⟨fun _ _ => fresh, fun other => absurd rfl (other gap)⟩⟩
      | _ =>
          obtain ⟨rfl, rfl⟩ := leads_pure.1 step
          exact ⟨.refl g.wf, .refl _, ⟨fun _ same => (by cases same), fun _ => rfl⟩⟩
    obtain ⟨g', fills', stands⟩ := next
    refine ⟨⟨g.trans g', fills.trans g.held fills'⟩, fun _ _ => ?_, fun child' new' old _ _ => ?_⟩
    · exact ⟨fun gap hg z hz => (stands.gap gap hg z hz).earlier g.held, stands.other⟩
    · have old := old wf g
      exact ⟨fun gap hg z hz => (old.gap gap hg z hz).later g.held g'.toEvolves, old.other⟩

/-! ## One container -/

theorem update_congr {α : Type} [Inhabited α] {t : Table α} {i : Nat} {f g : α → α}
    (h : f (t.get i) = g (t.get i)) : t.update i f = t.update i g := by
  simp only [Table.update, Table.mk.injEq]
  apply Array.ext
  · simp
  · intro j hj _
    simp only [Array.size_modify] at hj
    simp only [Array.getElem_modify]
    split
    case isTrue same =>
      subst same
      simpa [Table.get, hj] using h
    case isFalse => rfl

theorem updateVector_append (s : Store) (v : VectorId) (l : List Element) :
    s.updateVector v (fun n => { n with children := n.children ++ l }) =
      s.setChildren (.vector v) (s.children (.vector v) ++ l) := by
  rw [setChildren, updateVector, updateVector, update_congr]
  rfl

theorem fillUp_fills (wf : s.WellFormed) {g : Gap} {depth : Nat} {v : VectorId}
    (hv : s.InStore (.vector v)) {r : Unit} (h : Leads (fillUp g depth v) s r t) :
    Grows [.vector v] s t ∧ Fills s t := by
  simp only [fillUp, leads_bind, leads_get, leads_modify] at h
  obtain ⟨_, _, ⟨rfl, rfl⟩, filler, u, made, rfl⟩ := h
  obtain ⟨g', fills, fresh⟩ := gapCells_makes g _ s filler u wf made
  have same : u.children (.vector v) = s.children (.vector v) := by
    rcases g'.kept _ hv with same | ⟨_, none, -⟩
    · exact same.1
    · cases none
  rw [updateVector_append]
  refine ⟨(g'.of_nil : Grows [.vector v] s u).setChildren wf hv rfl ⟨_, by simp, .root⟩ ?_ ?_ ?_, ?_⟩
  · intro z hz
    rcases List.mem_append.1 hz with below | new
    · exact g'.allowed_child wf (same ▸ below)
    · exact .of_apart (fresh z new).inStore (fresh z new).apart
  · intro child below _
    exact ⟨child, List.mem_append_left _ below, .root⟩
  · intro w _ _ o
    have grown := (covers_refl o ((u.children (.vector v)).map w.extent)).append
      (covers_nil o (filler.map w.extent))
    rwa [List.append_nil, ← List.map_append] at grown
  · refine fills.trans g'.held (fills_setChildren u (g'.held _ hv) rfl ?_ ?_)
    · exact fun child below _ => List.mem_append_left _ below
    · intro free gap hg
      rcases List.mem_append.1 hg with below | new
      · exact free gap below
      · exact gap_not_mem_of_fresh fresh gap new

theorem levelFrame_fills (wf : s.WellFormed) {f : FrameId} (hf : s.InStore (.frame f)) {r : Unit}
    (h : Leads (levelFrame f) s r t) :
    Grows [.frame f] s t ∧ Fills s t ∧ GapFree t (.frame f) := by
  simp only [levelFrame, leads_bind, leads_get] at h
  obtain ⟨_, _, ⟨rfl, rfl⟩, _, m, first, _, _, ⟨rfl, rfl⟩, _, u, loop, hu⟩ := h
  obtain ⟨-, rfl⟩ := leads_pure.1 hu
  obtain ⟨g, fills, free⟩ := replaceGaps_fills wf hf rfl (fun _ => gapVectors_makes _ _ _) first
  have run := loop.loop (fun u => Grows [.frame f] m u ∧ Fills m u) (fun _ _ => True)
    ⟨.refl g.wf, .refl m⟩ ?_
  · exact ⟨g.trans_same run.1.1, fills.trans g.held run.1.2, run.1.2.gapFree _ (g.held _ hf) free⟩
  · rintro v hv a r b ⟨g', fills'⟩ step
    simp only [leads_bind, leads_pure] at step
    obtain ⟨_, _, filled, rfl, rfl⟩ := step
    have below := mem_frameVectors.1 hv
    have inside := g.wf.closed _ _ below
    obtain ⟨g'', fills''⟩ := fillUp_fills g'.wf (g'.held _ inside) filled
    have reach := g''.reach (.frame f) (.vector v) rfl
      (g'.reach (.frame f) (.vector v) rfl (reach_of_child below))
    refine ⟨rfl, ⟨g'.trans_same (g''.under fun x hx => ⟨.frame f, by simp, ?_⟩),
      fills'.trans g'.held fills''⟩, trivial, fun _ h => h⟩
    rwa [List.mem_singleton.1 hx]

theorem explode_fills (wf : s.WellFormed) {e : Element} (he : s.InStore e) {r : Unit}
    (h : Leads (explode e) s r t) : Grows [e] s t ∧ Fills s t ∧ GapFree t e := by
  cases e with
  | vector v => exact replaceGaps_fills wf he rfl (fun _ => gapCells_makes _ _) h
  | frame f => exact levelFrame_fills wf he h
  | stack k =>
      simp only [explode, levelStack, leads_bind, leads_get] at h
      obtain ⟨_, _, ⟨rfl, rfl⟩, h⟩ := h
      exact replaceGaps_fills wf he rfl (fun _ => gapBlock_makes _ _ _) h
  | _ =>
      obtain ⟨-, rfl⟩ := leads_pure.1 h
      exact ⟨.refl wf, .refl _, fun g hg => by cases hg⟩

/-! ## Everything below -/

theorem explodeWithin_of_not_isContainer {fuel : Nat} {e : Element} (hc : e.isContainer = false)
    {r : Unit} (h : Leads (explodeWithin fuel e) s r t) : t = s := by
  cases fuel with
  | zero => exact (leads_pure.1 h).2.symm
  | succ fuel =>
      have none : s.children e = [] := by
        cases e <;> first | rfl | cases hc
      simp only [explodeWithin, leads_bind, leads_get] at h
      obtain ⟨_, _, ⟨rfl, rfl⟩, _, _, loop, h⟩ := h
      rw [none, List.forIn_nil, leads_pure] at loop
      obtain ⟨-, rfl⟩ := loop
      cases e <;> first | exact (leads_pure.1 h).2.symm | cases hc

theorem explodeWithin_fills (fuel : Nat) {e : Element} (wf : s.WellFormed) (he : s.InStore e)
    {r : Unit} (h : Leads (explodeWithin fuel e) s r t) : Grows [e] s t ∧ Fills s t := by
  induction fuel generalizing s e r t with
  | zero =>
      obtain ⟨-, rfl⟩ := leads_pure.1 h
      exact ⟨.refl wf, .refl s⟩
  | succ fuel ih =>
      simp only [explodeWithin, leads_bind, leads_get] at h
      obtain ⟨_, _, ⟨rfl, rfl⟩, _, m, loop, last⟩ := h
      have run := loop.loop (fun u => Grows [e] s u ∧ Fills s u) (fun _ _ => True)
        ⟨.refl wf, .refl s⟩ ?_
      · obtain ⟨g, fills⟩ := run.1
        obtain ⟨g', fills', -⟩ := explode_fills g.wf (g.held e he) last
        exact ⟨g.trans_same g', fills.trans g.held fills'⟩
      · rintro child below a r b ⟨g, fills⟩ step
        simp only [leads_bind, leads_pure] at step
        obtain ⟨_, _, first, rfl, rfl⟩ := step
        refine ⟨rfl, ?_, trivial, fun _ h => h⟩
        cases hc : child.isContainer with
        | false =>
            rw [explodeWithin_of_not_isContainer hc first]
            exact ⟨g, fills⟩
        | true =>
            have solid := Element.isSolid_of_isContainer hc
            obtain ⟨g', fills'⟩ := ih g.wf (g.held child (wf.closed e child below)) first
            have reach := g'.reach e child solid (g.reach e child solid (reach_of_child below))
            refine ⟨g.trans_same (g'.under fun x hx => ⟨e, by simp, ?_⟩),
              fills.trans g.held fills'⟩
            rwa [List.mem_singleton.1 hx]

/-- A walk with enough fuel leaves no gap in what was below the element at an earlier time. -/
theorem explodeWithin_gapFree {rank : Element → Nat} (isRank : s.IsRank rank) (wf : s.WellFormed)
    (fuel : Nat) {e : Element} (enough : rank e ≤ fuel) (he : s.InStore e) {a b : Store}
    (held : ∀ x, s.InStore x → a.InStore x) (before : Fills s a) (wfa : a.WellFormed) {r : Unit}
    (h : Leads (explodeWithin fuel e) a r b) : ∀ x, Reach s e x → GapFree b x := by
  induction fuel generalizing e a b r with
  | zero =>
      have := isRank.positive e
      omega
  | succ fuel ih =>
      simp only [explodeWithin, leads_bind, leads_get] at h
      obtain ⟨_, _, ⟨rfl, rfl⟩, _, m, loop, last⟩ := h
      have run := loop.loop (fun u => u.WellFormed ∧ (∀ x, a.InStore x → u.InStore x) ∧ Fills a u)
        (fun child u => u.WellFormed → (∀ x, a.InStore x → u.InStore x) →
          child ∈ s.children e → ∀ x, Reach s child x → GapFree u x)
        ⟨wfa, fun _ h => h, .refl a⟩ ?_
      · obtain ⟨⟨wfm, heldm, fillsm⟩, each, -⟩ := run
        obtain ⟨-, fills, free⟩ := explode_fills wfm (heldm e (held e he)) last
        intro x reach
        rcases reach.eq_or_child with rfl | ⟨child, below, reach⟩
        · exact free
        · have inside := wf.inStore_of_reach (wf.closed e child below) reach
          cases hc : child.isContainer with
          | false =>
              -- Such a child has nothing below it.
              have here : x = child := by
                rcases reach.eq_or_child with same | ⟨_, under, -⟩
                · exact same
                · rw [isContainer_of_child under] at hc
                  cases hc
              intro g hg
              rw [here] at hg
              rw [isContainer_of_child hg] at hc
              cases hc
          | true =>
              have stays := before.children e he child below (Element.isSolid_of_isContainer hc)
              exact fills.gapFree x (heldm x (held x inside))
                (each child stays wfm heldm below x reach)
      · rintro child below u r v ⟨wfu, heldu, fillsu⟩ step
        simp only [leads_bind, leads_pure] at step
        obtain ⟨_, _, first, rfl, rfl⟩ := step
        have inside := heldu child (wfa.closed e child below)
        obtain ⟨g, fills⟩ := explodeWithin_fills fuel wfu inside first
        refine ⟨rfl, ⟨g.wf, fun x hx => g.held x (heldu x hx), fillsu.trans heldu fills⟩, ?_, ?_⟩
        · intro _ _ old
          exact ih (isRank.child_le old enough) (wf.closed e child old)
            (fun x hx => heldu x (held x hx)) (before.trans held fillsu) wfu first
        · intro child' known _ _ old x reach
          refine fills.gapFree x (heldu x (held x ?_)) (known wfu heldu old x reach)
          exact wf.inStore_of_reach (wf.closed e child' old) reach

theorem explodeGaps_gapFree {e : Element} (wf : s.WellFormed) (he : s.InStore e) {r : Unit}
    (h : Leads (explodeGaps e) s r t) :
    Grows [e] s t ∧ ∀ x, Reach t e x → GapFree t x := by
  simp only [explodeGaps, leads_bind, leads_get] at h
  obtain ⟨_, _, ⟨rfl, rfl⟩, h⟩ := h
  obtain ⟨rank, isRank⟩ := wf.acyclic.exists_rank
  obtain ⟨g, fills⟩ := explodeWithin_fills _ wf he h
  have free := explodeWithin_gapFree isRank wf _ (isRank.bounded e) he (fun _ h => h) (.refl s)
    wf h
  refine ⟨g, fun x reach gap hg => ?_⟩
  by_cases old : s.InStore x
  · exact free x (g.reflects e x he old (isContainer_of_child hg) reach) gap hg
  · exact fills.fresh x old gap hg

end Spreadsheet.StoreM
