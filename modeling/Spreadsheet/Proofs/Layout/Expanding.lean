import Spreadsheet.Proofs.Layout.Blocks
import Spreadsheet.Proofs.Resolve.Intact

/-!
# What stands for a gap

A gap gives way to new empty cells, to vectors of them, or to a block of such vectors.  What is new is
new down to its cells, and everything else that was there before is left as it is, apart from the
children of the container in which the gap was.
-/

namespace Spreadsheet

open Store

namespace Store

variable {s t u : Store} {g : Gap} {l l' : List Element}

/-! ## New blocks -/

/-- Whether an element is there in a store and not yet in an earlier one. -/
structure Novel (s t : Store) (e : Element) : Prop where
  new : ¬s.InStore e
  there : t.InStore e

/-- Whether what is new since a store is still the same in a later one. -/
def Spared (s t u : Store) : Prop :=
  ∀ e, Novel s t e → u.InStore e ∧ Left t u e

/-- Whether a property of what is new depends on nothing else, and not on when it was made. -/
structure Enduring {ι : Type} (Q : Store → Store → ι → Prop) : Prop where
  later : ∀ {s t u i}, Q s t i → Spared s t u → Q s u i
  earlier : ∀ {s t u i}, Q t u i → (∀ e, s.InStore e → t.InStore e) → Q s u i

theorem Novel.later {e : Element} (h : Novel s t e) (spared : Spared s t u) : Novel s u e :=
  ⟨h.new, (spared e h).1⟩

theorem Novel.earlier {e : Element} (h : Novel t u e) (held : ∀ e, s.InStore e → t.InStore e) :
    Novel s u e :=
  ⟨fun old => h.new (held e old), h.there⟩

/-- Whether some elements are new empty cells in the style of a gap. -/
def GapCells (g : Gap) (n : Nat) (s t : Store) (l : List Element) : Prop :=
  ∃ cells : List CellId, l = cells.map .cell ∧ cells.length = n ∧ ∀ c ∈ cells,
    Novel s t (.cell c) ∧ t.cell c = { style := g.style, inheritsStyle := g.fill }

/-- Whether a vector is new and holds nothing but new empty cells in the style of a gap. -/
def GapVector (g : Gap) (o : Orientation) (n : Nat) (s t : Store) (v : VectorId) : Prop :=
  Novel s t (.vector v) ∧ ∃ cells, GapCells g n s t cells ∧ t.vector v =
    { orientation := o, children := cells, attributes := { inheritsStyle := g.fill } }

/-- Whether some elements are as many such vectors as the gap is large. -/
def GapVectors (g : Gap) (o : Orientation) (n : Nat) (s t : Store) (l : List Element) : Prop :=
  ∃ vectors : List VectorId, l = vectors.map .vector ∧ vectors.length = g.size ∧
    ∀ v ∈ vectors, GapVector g o n s t v

/-- Whether the only element is a new frame of such vectors along an axis. -/
def GapBlock (g : Gap) (o : Orientation) (n : Nat) (s t : Store) (l : List Element) : Prop :=
  ∃ f : FrameId, l = [.frame f] ∧ Novel s t (.frame f) ∧
    ∃ vectors, GapVectors g o.cross n s t vectors ∧ t.frame f =
      { orientation := o, children := vectors, attributes := { inheritsStyle := g.fill } }

theorem enduring_gapCells (g : Gap) (n : Nat) : Enduring (GapCells g n) where
  later h spared := by
    obtain ⟨cells, rfl, count, each⟩ := h
    refine ⟨cells, rfl, count, fun c hc => ⟨(each c hc).1.later spared, ?_⟩⟩
    exact Eq.trans (spared _ (each c hc).1).2 (each c hc).2
  earlier h held := by
    obtain ⟨cells, rfl, count, each⟩ := h
    exact ⟨cells, rfl, count, fun c hc => ⟨(each c hc).1.earlier held, (each c hc).2⟩⟩

theorem enduring_gapVector (g : Gap) (o : Orientation) (n : Nat) : Enduring (GapVector g o n) where
  later h spared := by
    obtain ⟨novel, cells, made, is⟩ := h
    exact ⟨novel.later spared, cells, (enduring_gapCells g n).later made spared,
      Eq.trans (spared _ novel).2 is⟩
  earlier h held := by
    obtain ⟨novel, cells, made, is⟩ := h
    exact ⟨novel.earlier held, cells, (enduring_gapCells g n).earlier made held, is⟩

theorem enduring_gapVectors (g : Gap) (o : Orientation) (n : Nat) :
    Enduring (GapVectors g o n) where
  later h spared := by
    obtain ⟨vectors, rfl, count, each⟩ := h
    exact ⟨vectors, rfl, count, fun v hv => (enduring_gapVector g o n).later (each v hv) spared⟩
  earlier h held := by
    obtain ⟨vectors, rfl, count, each⟩ := h
    exact ⟨vectors, rfl, count, fun v hv => (enduring_gapVector g o n).earlier (each v hv) held⟩

theorem enduring_gapBlock (g : Gap) (o : Orientation) (n : Nat) : Enduring (GapBlock g o n) where
  later h spared := by
    obtain ⟨f, rfl, novel, vectors, made, is⟩ := h
    exact ⟨f, rfl, novel.later spared, vectors, (enduring_gapVectors g _ n).later made spared,
      Eq.trans (spared _ novel).2 is⟩
  earlier h held := by
    obtain ⟨f, rfl, novel, vectors, made, is⟩ := h
    exact ⟨f, rfl, novel.earlier held, vectors, (enduring_gapVectors g _ n).earlier made held, is⟩

/-! ## New down to the cells -/

/-- Whether an element stands for a gap or is a part of what does. -/
inductive GapMade (s t : Store) : Element → Prop
  | cell {g : Gap} {c : CellId} (novel : Novel s t (.cell c))
      (is : t.cell c = { style := g.style, inheritsStyle := g.fill }) : GapMade s t (.cell c)
  | vector {g : Gap} {o : Orientation} {n : Nat} {v : VectorId} (is : GapVector g o n s t v) :
      GapMade s t (.vector v)
  | frame {g : Gap} {o : Orientation} {n : Nat} {f : FrameId}
      (is : GapBlock g o n s t [.frame f]) : GapMade s t (.frame f)

theorem GapMade.novel {e : Element} (h : GapMade s t e) : Novel s t e := by
  cases h with
  | cell novel _ => exact novel
  | vector is => exact is.1
  | frame is =>
      obtain ⟨f, same, novel, -⟩ := is
      cases same
      exact novel

theorem GapCells.made {n : Nat} (h : GapCells g n s t l) : ∀ z ∈ l, GapMade s t z := by
  obtain ⟨cells, rfl, -, each⟩ := h
  intro z hz
  obtain ⟨c, hc, rfl⟩ := List.mem_map.1 hz
  exact .cell (each c hc).1 (each c hc).2

theorem GapVector.children {o : Orientation} {n : Nat} {v : VectorId} (h : GapVector g o n s t v) :
    GapCells g n s t (t.children (.vector v)) := by
  obtain ⟨-, cells, made, is⟩ := h
  rwa [Store.children, is]

theorem GapVectors.made {o : Orientation} {n : Nat} (h : GapVectors g o n s t l) :
    ∀ z ∈ l, GapMade s t z := by
  obtain ⟨vectors, rfl, -, each⟩ := h
  intro z hz
  obtain ⟨v, hv, rfl⟩ := List.mem_map.1 hz
  exact .vector (each v hv)

theorem GapBlock.children {o : Orientation} {n : Nat} {f : FrameId}
    (h : GapBlock g o n s t [.frame f]) : GapVectors g o.cross n s t (t.children (.frame f)) := by
  obtain ⟨f, same, -, vectors, made, is⟩ := h
  cases same
  rwa [Store.children, is]

theorem GapBlock.made {o : Orientation} {n : Nat} (h : GapBlock g o n s t l) :
    ∀ z ∈ l, GapMade s t z := by
  obtain ⟨f, rfl, rest⟩ := h
  intro z hz
  obtain rfl := List.mem_singleton.1 hz
  exact .frame ⟨f, rfl, rest⟩

theorem GapMade.child {e z : Element} (h : GapMade s t e) (below : z ∈ t.children e) :
    GapMade s t z := by
  cases h with
  | cell => cases below
  | vector is => exact is.children.made z below
  | frame is => exact is.children.made z below

theorem GapMade.reach {e x : Element} (h : GapMade s t e) (reach : Reach t e x) :
    GapMade s t x := by
  induction reach with
  | root => exact h
  | child _ below ih => exact ih.child below

/-! ## Adding nodes -/

theorem stays_addVector (s : Store) (n : VectorNode) {e : Element} (he : s.InStore e) :
    (s.addVector n).2.InStore e ∧ Left s (s.addVector n).2 e := by
  cases e with
  | vector v =>
      exact ⟨by simp only [InStore, addVector, Table.size_push] at he ⊢; omega,
        (vector_addVector_eq s n v).trans (if_neg (Nat.ne_of_lt he))⟩
  | gap g => exact ⟨trivial, trivial⟩
  | _ => exact ⟨he, rfl⟩

theorem stays_addFrame (s : Store) (n : FrameNode) {e : Element} (he : s.InStore e) :
    (s.addFrame n).2.InStore e ∧ Left s (s.addFrame n).2 e := by
  cases e with
  | frame f =>
      exact ⟨by simp only [InStore, addFrame, Table.size_push] at he ⊢; omega,
        (frame_addFrame_eq s n f).trans (if_neg (Nat.ne_of_lt he))⟩
  | gap g => exact ⟨trivial, trivial⟩
  | _ => exact ⟨he, rfl⟩

/-! ## In the place of gaps -/

/-- Whether some elements are others with what fits in the place of each gap. -/
inductive Expands (P : Gap → List Element → Prop) : List Element → List Element → Prop
  | nil : Expands P [] []
  | keep {child : Element} {l l' : List Element} (solid : ∀ g, child ≠ .gap g) :
      Expands P l l' → Expands P (child :: l) (child :: l')
  | fill {g : Gap} {new l l' : List Element} (fits : P g new) :
      Expands P l l' → Expands P (.gap g :: l) (new ++ l')

variable {P Q : Gap → List Element → Prop}

theorem Expands.imp (h : Expands P l l') (imp : ∀ g new, P g new → Q g new) : Expands Q l l' := by
  induction h with
  | nil => exact .nil
  | keep solid _ ih => exact .keep solid ih
  | fill fits _ ih => exact .fill (imp _ _ fits) ih

theorem Expands.mem_cases (h : Expands P l l') {z : Element} (hz : z ∈ l') :
    z ∈ l ∧ (∀ g, z ≠ .gap g) ∨ ∃ g new, P g new ∧ z ∈ new := by
  induction h with
  | nil => cases hz
  | @keep child l l' solid _ ih =>
      rcases List.mem_cons.1 hz with rfl | hz
      · exact .inl ⟨by simp, solid⟩
      · exact (ih hz).imp (fun below => ⟨List.mem_cons_of_mem _ below.1, below.2⟩) id
  | @fill g new l l' fits _ ih =>
      rcases List.mem_append.1 hz with hz | hz
      · exact .inr ⟨g, new, fits, hz⟩
      · exact (ih hz).imp (fun below => ⟨List.mem_cons_of_mem _ below.1, below.2⟩) id

theorem Expands.mem_of_mem (h : Expands P l l') {z : Element} (hz : z ∈ l)
    (solid : ∀ g, z ≠ .gap g) : z ∈ l' := by
  induction h with
  | nil => cases hz
  | keep _ _ ih =>
      rcases List.mem_cons.1 hz with rfl | hz
      · exact List.mem_cons_self ..
      · exact List.mem_cons_of_mem _ (ih hz)
  | @fill g new l l' _ _ ih =>
      rcases List.mem_cons.1 hz with rfl | hz
      · exact absurd rfl (solid g)
      · exact List.mem_append_right new (ih hz)

end Store

/-! ## Making them -/

namespace StoreM

variable {α β : Type} {s t : Store} {g : Gap}

/-- What is known of each of some new elements when it is made is known of all in the end. -/
theorem made_mapM (toElement : β → Element) {Q : Store → Store → β → Prop} {f : α → StoreM β}
    (enduring : Enduring Q)
    (each : ∀ a s b t, s.WellFormed → Leads (f a) s b t → Plants s t [toElement b] ∧ Q s t b)
    (wf : s.WellFormed) {l : List α} {bs : List β} (h : Leads (l.mapM f) s bs t) :
    bs.length = l.length ∧ ∀ b ∈ bs, Q s t b := by
  induction l generalizing s bs with
  | nil =>
      obtain ⟨rfl, rfl⟩ := leads_pure.1 h
      exact ⟨rfl, by simp⟩
  | cons a l ih =>
      rw [List.mapM_cons, leads_bind] at h
      obtain ⟨b, m, first, h⟩ := h
      obtain ⟨rest, m', others, h⟩ := leads_bind.1 h
      obtain ⟨rfl, rfl⟩ := leads_pure.1 h
      obtain ⟨plants, made⟩ := each a s b m wf first
      have later := plants_mapM (fun a s b t wf h => (each a s b t wf h).1) plants.wf others
      obtain ⟨count, known⟩ := ih plants.wf others
      refine ⟨by simp [count], fun x hx => ?_⟩
      rcases List.mem_cons.1 hx with rfl | hx
      · exact enduring.later made fun e novel =>
          ⟨later.spares.held e novel.there, later.spares.left e novel.there⟩
      · exact enduring.earlier (known x hx) plants.spares.held

theorem novel_of_plants {e : Element} (h : Plants s t [e]) : Novel s t e :=
  ⟨h.new e (by simp), h.inStore e (by simp)⟩

/-- Whether an element is a new empty cell in the style of a gap. -/
def IsGapCell (g : Gap) (s t : Store) (e : Element) : Prop :=
  ∃ c, e = .cell c ∧ Novel s t (.cell c) ∧
    t.cell c = { style := g.style, inheritsStyle := g.fill }

theorem enduring_isGapCell (g : Gap) : Enduring (IsGapCell g) where
  later h spared := by
    obtain ⟨c, rfl, novel, is⟩ := h
    exact ⟨c, rfl, novel.later spared, Eq.trans (spared _ novel).2 is⟩
  earlier h held := by
    obtain ⟨c, rfl, novel, is⟩ := h
    exact ⟨c, rfl, novel.earlier held, is⟩

theorem gapCells_made (wf : s.WellFormed) {n : Nat} {l : List Element}
    (h : Leads (gapCells g n) s l t) : Plants s t l ∧ GapCells g n s t l := by
  have each : ∀ (i : Nat) s e t, s.WellFormed →
      Leads (do return .cell (← newCell { style := g.style, inheritsStyle := g.fill }) : StoreM Element)
        s e t → Plants s t [e] ∧ IsGapCell g s t e := by
    intro _ s e t wf step
    simp only [leads_bind, leads_pure] at step
    obtain ⟨c, _, made, rfl, rfl⟩ := step
    have plants := newCell_plants wf ⟨Nat.le_refl 1, Nat.le_refl 1⟩ made
    obtain ⟨rfl, rfl⟩ := leads_modifyGet.1 made
    exact ⟨plants, _, rfl, novel_of_plants plants, cell_addCell _ _⟩
  have plants : Plants s t (l.map id) := plants_mapM (fun i s e t wf h => (each i s e t wf h).1) wf h
  rw [List.map_id] at plants
  obtain ⟨count, known⟩ := made_mapM id (enduring_isGapCell g) each wf h
  obtain ⟨cells, rfl⟩ := exists_cells fun x hx => (known x hx).imp fun _ is => is.1
  rw [List.length_map, List.length_range] at count
  refine ⟨plants, cells, rfl, count, fun c hc => ?_⟩
  obtain ⟨_, same, novel, is⟩ := known (.cell c) (List.mem_map_of_mem hc)
  cases same
  exact ⟨novel, is⟩

theorem gapVector_made (wf : s.WellFormed) {o : Orientation} {n : Nat} {v : VectorId}
    (h : Leads (gapVector g o n) s v t) : Plants s t [.vector v] ∧ GapVector g o n s t v := by
  simp only [gapVector, leads_bind] at h
  obtain ⟨cells, m, first, second⟩ := h
  obtain ⟨plants, made⟩ := gapCells_made wf first
  have whole := newVector_plants plants second
  obtain ⟨rfl, rfl⟩ := leads_modifyGet.1 second
  refine ⟨whole, novel_of_plants whole, cells, ?_, (vector_addVector_eq _ _ _).trans (if_pos rfl)⟩
  exact (enduring_gapCells g n).later made fun e novel => stays_addVector m _ novel.there

theorem gapVectors_made (wf : s.WellFormed) {o : Orientation} {n : Nat} {l : List Element}
    (h : Leads (gapVectors g o n) s l t) : Plants s t l ∧ GapVectors g o n s t l := by
  simp only [gapVectors, leads_bind, leads_pure] at h
  obtain ⟨vectors, _, made, rfl, rfl⟩ := h
  have each : ∀ (i : Nat) s v t, s.WellFormed → Leads (gapVector g o n) s v t →
      Plants s t [.vector v] ∧ GapVector g o n s t v := fun _ s v t wf step => gapVector_made wf step
  obtain ⟨count, known⟩ := made_mapM Element.vector (enduring_gapVector g o n) each wf made
  rw [List.length_range] at count
  exact ⟨plants_mapM (fun i s v t wf step => (each i s v t wf step).1) wf made, vectors, rfl, count,
    known⟩

theorem gapBlock_made (wf : s.WellFormed) {o : Orientation} {n : Nat} {e : Element}
    (h : Leads (gapBlock g o n) s e t) : Plants s t [e] ∧ GapBlock g o n s t [e] := by
  simp only [gapBlock, leads_bind, leads_pure] at h
  obtain ⟨vectors, m, first, f, _, second, rfl, rfl⟩ := h
  obtain ⟨plants, made⟩ := gapVectors_made wf first
  have whole := newFrame_plants plants second
  obtain ⟨rfl, rfl⟩ := leads_modifyGet.1 second
  refine ⟨whole, _, rfl, novel_of_plants whole, vectors, ?_,
    (frame_addFrame_eq _ _ _).trans (if_pos rfl)⟩
  exact (enduring_gapVectors g _ n).later made fun e novel => stays_addFrame m _ novel.there

/-- A block in the place of a gap is the only element there. -/
theorem gapBlock_alone {o : Orientation} {n : Nat} (wf : s.WellFormed) {l : List Element}
    (h : Leads (do return [← gapBlock g o n] : StoreM (List Element)) s l t) :
    Plants s t l ∧ GapBlock g o n s t l := by
  simp only [leads_bind, leads_pure] at h
  obtain ⟨e, _, made, rfl, rfl⟩ := h
  exact gapBlock_made wf made

/-! ## Replacing the gaps of a container -/

/-- Whether no node has changed but those that may be touched, and these only in their children. -/
structure Edits (touched : Element → Prop) (s t : Store) : Prop where
  held : ∀ e, s.InStore e → t.InStore e
  intact : ∀ e, s.InStore e → Intact s t e
  left : ∀ e, s.InStore e → ¬touched e → Left s t e

variable {touched more : Element → Prop} {u : Store}

theorem Edits.refl (s : Store) : Edits touched s s :=
  ⟨fun _ he => he, fun e _ => (Left.refl s e).intact, fun e _ _ => .refl s e⟩

theorem Edits.trans (first : Edits touched s t) (second : Edits more t u) :
    Edits (fun e => touched e ∨ more e) s u where
  held e he := second.held e (first.held e he)
  intact e he := (first.intact e he).trans (second.intact e (first.held e he))
  left e he free := (first.left e he fun h => free (.inl h)).trans
    (second.left e (first.held e he) fun h => free (.inr h))

theorem Edits.imp (h : Edits touched s t) (imp : ∀ e, s.InStore e → touched e → more e) :
    Edits more s t :=
  ⟨h.held, h.intact, fun e he free => h.left e he fun here => free (imp e he here)⟩

/-- What was made before is not touched. -/
theorem Edits.spared (h : Edits touched t u) (old : ∀ e, touched e → s.InStore e) :
    Spared s t u :=
  fun e novel => ⟨h.held e novel.there, h.left e novel.there fun here => novel.new (old e here)⟩

theorem left_setChildren (s : Store) {e x : Element} (l : List Element) (ne : x ≠ e) :
    Left s (s.setChildren e l) x := by
  cases e with
  | vector v => exact left_updateVector s _ ne
  | frame f => exact left_updateFrame s _ ne
  | stack k => exact left_updateStack s _ ne
  | _ => exact .refl s x

theorem edits_setChildren (s : Store) (e : Element) (l : List Element) :
    Edits (· = e) s (s.setChildren e l) where
  held x := ((regroups_setChildren s e l).inStore x).2
  intact x _ := intact_setChildren s e x l
  left _ _ ne := left_setChildren s l ne

/-- The trees under some roots stay a forest where a container gets new trees among its children. -/
theorem forest_setChildren {made l' : List Element} (plants : Plants s u made)
    (wf : s.WellFormed) {e : Element} (he : s.InStore e) (hc : e.isContainer = true)
    (counts : ∀ (v : Store) n, (v.nodesUnder l').count n ≤
      (v.nodesUnder (s.children e)).count n + (v.nodesUnder made).count n)
    (acyclic : (u.setChildren e l').Acyclic) {roots : List Element}
    (inside : ∀ root ∈ roots, s.InStore root) (forest : s.Forest roots) :
    (u.setChildren e l').Forest roots := by
  have new : ∀ z ∈ made, ∀ x, Reach u z x → ¬s.InStore x :=
    fun z hz x => plants.spares.not_inStore_of_reach (plants.new z hz)
  have same : (u.setChildren e l').nodesUnder made = u.nodesUnder made := by
    refine nodesUnder_congr plants.wf.acyclic acyclic fun z hz x reach => ?_
    exact (regroups_setChildren u e l').others x fun here => new z hz x reach (here ▸ he)
  refine forest.regroup (u.nodesUnder made).count wf acyclic inside hc (fun n => ?_)
    (fun x hx ne => ?_) (List.nodup_iff_count_le_one.1 plants.forest) fun n old => ?_
  · rw [children_setChildren_self (plants.spares.held e he) hc, ← same]
    exact counts _ n
  · exact ((regroups_setChildren u e l').others x ne).trans (plants.spares.children hx)
  · obtain ⟨root, hroot, reach⟩ := wf.acyclic.mem_nodesUnder.1 old
    rw [List.count_eq_zero, plants.wf.acyclic.mem_nodesUnder]
    rintro ⟨z, hz, reach'⟩
    exact new z hz _ reach' (wf.inStore_of_reach (inside root hroot) reach)

/-- Whether nothing old has changed, and the new elements are what stands for the gaps of a list. -/
structure Furnishes (P : Gap → Store → Store → List Element → Prop) (s t : Store)
    (l l' : List Element) : Prop where
  expands : Expands (fun g => P g s t) l l'
  /-- The new elements are trees, and at any time no node is there twice because of them. -/
  plants : ∃ made, Plants s t made ∧ ∀ (u : Store) n,
    (u.nodesUnder l').count n ≤ (u.nodesUnder l).count n + (u.nodesUnder made).count n

variable {P : Gap → Store → Store → List Element → Prop} {l : List Element}

theorem furnishes_mapM (enduring : ∀ g, Enduring (P g)) {replace : Element → StoreM (List Element)}
    (gaps : ∀ g s l t, s.WellFormed → Leads (replace (.gap g)) s l t → Plants s t l ∧ P g s t l)
    (others : ∀ child, (∀ g, child ≠ .gap g) → replace child = pure [child])
    (wf : s.WellFormed) {lists : List (List Element)} (h : Leads (l.mapM replace) s lists t) :
    Furnishes P s t l lists.flatten := by
  induction l generalizing s lists with
  | nil =>
      obtain ⟨rfl, rfl⟩ := leads_pure.1 h
      exact ⟨.nil, [], .nil wf, by simp⟩
  | cons child rest ih =>
      simp only [List.mapM_cons, leads_bind, leads_pure] at h
      obtain ⟨new, m, first, lists, u, later, rfl, rfl⟩ := h
      by_cases gap : ∃ g, child = .gap g
      · obtain ⟨g, rfl⟩ := gap
        obtain ⟨plants, fits⟩ := gaps g s new m wf first
        obtain ⟨expands, made, behind, counts⟩ := ih plants.wf later
        refine ⟨.fill ?_ (expands.imp fun g new fits => ?_), new ++ made, plants.append behind, ?_⟩
        · exact (enduring g).later fits fun e novel =>
            ⟨behind.spares.held e novel.there, behind.spares.left e novel.there⟩
        · exact (enduring g).earlier fits plants.spares.held
        · intro v n
          have behind := counts v n
          rw [List.flatten_cons, nodesUnder_append, nodesUnder_append, List.count_append,
            List.count_append]
          have own : (v.nodesUnder (.gap g :: rest)).count n =
              (v.nodesUnder [.gap g]).count n + (v.nodesUnder rest).count n := by
            rw [nodesUnder_cons, List.count_append]
          omega
      · rw [others child fun g same => gap ⟨g, same⟩] at first
        obtain ⟨rfl, rfl⟩ := leads_pure.1 first
        obtain ⟨expands, made, plants, counts⟩ := ih wf later
        refine ⟨.keep (fun g same => gap ⟨g, same⟩) expands, made, plants, fun v n => ?_⟩
        have rest' := counts v n
        rw [List.flatten_cons, List.singleton_append, nodesUnder_cons v child lists.flatten,
          nodesUnder_cons v child rest, List.count_append, List.count_append]
        omega

section

variable (enduring : ∀ g, Enduring (P g)) {replacement : Gap → StoreM (List Element)}
  (makes : ∀ g s l t, s.WellFormed → Leads (replacement g) s l t → Plants s t l ∧ P g s t l)
  (wf : s.WellFormed) {e : Element} (he : s.InStore e) (hc : e.isContainer = true) {r : Unit}
  (h : Leads (replaceGaps e replacement) s r t)

include enduring makes wf h

theorem replaceGaps_furnishes :
    ∃ l' u, Furnishes P s u (s.children e) l' ∧ t = u.setChildren e l' := by
  simp only [replaceGaps, leads_bind, leads_get, leads_modify] at h
  obtain ⟨_, _, ⟨rfl, rfl⟩, lists, u, made, rfl⟩ := h
  exact ⟨_, u, furnishes_mapM enduring makes
    (fun child solid => by cases child <;> first | rfl | exact absurd rfl (solid _)) wf made, rfl⟩

include he hc

theorem replaceGaps_expands :
    Edits (· = e) s t ∧ Expands (fun g => P g s t) (s.children e) (t.children e) := by
  obtain ⟨l', u, ⟨expands, _, ⟨spares, -⟩, -⟩, rfl⟩ := replaceGaps_furnishes enduring makes wf h
  have spared : Edits (fun _ => False) s u :=
    ⟨spares.held, fun e he => (spares.left e he).intact, fun e he _ => spares.left e he⟩
  have regrouped := edits_setChildren u e l'
  refine ⟨(spared.trans regrouped).imp fun x _ h => h.elim False.elim id, ?_⟩
  rw [children_setChildren_self (spares.held e he) hc]
  exact expands.imp fun g new fits => (enduring g).later fits (regrouped.spared fun _ => (· ▸ he))

theorem replaceGaps_forest (wft : t.WellFormed) {roots : List Element}
    (inside : ∀ root ∈ roots, s.InStore root) (forest : s.Forest roots) : t.Forest roots := by
  obtain ⟨l', u, ⟨-, made, plants, counts⟩, rfl⟩ := replaceGaps_furnishes enduring makes wf h
  exact forest_setChildren plants wf he hc counts wft.acyclic inside forest

end

end StoreM

end Spreadsheet
