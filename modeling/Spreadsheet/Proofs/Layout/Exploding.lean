import Spreadsheet.Proofs.Layout.Expanding

/-!
# What becomes of a tree without its gaps

In a tree in which no node is twice, each container is gone through once, after what is below it.  A
vector gets cells for its gaps; a frame gets vectors for its gaps, as long as its longest vector, and
its shorter vectors are filled up; a stack gets blocks for its gaps, as broad as its other children.
-/

namespace Spreadsheet

open Store

namespace Store

variable {s t u : Store} {o : Orientation} {e : Element} {l l' : List Element}

/-! ## Lengths -/

/-- How far some elements extend along an axis, gaps counted with their size. -/
def fullLength (s : Store) (o : Orientation) (l : List Element) : Nat :=
  Number.total (l.map (s.advance o))

/-- How far the broadest of some elements extends across an axis; gaps do not extend. -/
def breadth (s : Store) (o : Orientation) (l : List Element) : Nat :=
  (l.map fun e => o.across (s.extent e)).foldl max 0

/-- The length of a vector by itself, its header and its gaps counted. -/
def naturalLength (s : Store) (v : VectorId) : Nat :=
  s.fullLength (s.vector v).orientation (s.children (.vector v)) +
    (s.pendingHeader (.vector v)).toNat

/-- The length of the longest vector of a frame. -/
def depth (s : Store) (f : FrameId) : Nat :=
  ((s.frameVectors f).map s.naturalLength).foldl max 0

theorem naturalLength_le_depth {f : FrameId} {v : VectorId} (h : v ∈ s.frameVectors f) :
    s.naturalLength v ≤ s.depth f :=
  le_foldl_max_of_mem (List.mem_map_of_mem h)

theorem fullLength_cons (s : Store) (o : Orientation) (e : Element) (l : List Element) :
    s.fullLength o (e :: l) = s.advance o e + s.fullLength o l :=
  rfl

theorem fullLength_append (s : Store) (o : Orientation) (l l' : List Element) :
    s.fullLength o (l ++ l') = s.fullLength o l + s.fullLength o l' := by
  simp [fullLength]

theorem advance_eq (s : Store) (o : Orientation) {e : Element} (solid : ∀ g, e ≠ .gap g) :
    s.advance o e = o.along (s.extent e) := by
  cases e with
  | gap g => exact absurd rfl (solid g)
  | _ => rfl

/-- A list in which what stands for each gap is as long as the gap. -/
theorem Expands.lengthAlong_eq {P : Gap → List Element → Prop} (h : Expands P l l')
    (sizes : ∀ g new, P g new → t.lengthAlong o new = g.size) :
    t.lengthAlong o l' = t.fullLength o l := by
  induction h with
  | nil => rfl
  | keep solid _ ih => rw [lengthAlong_cons, fullLength_cons, t.advance_eq o solid, ih]
  | fill fits _ ih => rw [lengthAlong_append, fullLength_cons, sizes _ _ fits, ih]; rfl

theorem extent_gapCell {g : Gap} {c : CellId}
    (h : t.cell c = { style := g.style, inheritsStyle := g.fill }) : t.extent (.cell c) = ⟨1, 1⟩ :=
  congrArg CellNode.merge h

theorem GapCells.lengthAlong {g : Gap} {n : Nat} (h : GapCells g n s t l) (o : Orientation) :
    t.lengthAlong o l = n := by
  obtain ⟨cells, rfl, rfl, each⟩ := h
  exact lengthAlong_cells (fun c hc => extent_gapCell (each c hc).2) o

theorem GapCells.append {g : Gap} {n m : Nat} (h : GapCells g n s t l) (h' : GapCells g m s t l') :
    GapCells g (n + m) s t (l ++ l') := by
  obtain ⟨cells, rfl, rfl, each⟩ := h
  obtain ⟨cells', rfl, rfl, each'⟩ := h'
  refine ⟨cells ++ cells', List.map_append.symm, List.length_append, fun c hc => ?_⟩
  exact (List.mem_append.1 hc).elim (each c) (each' c)

/-- A vector is as long as its children, and one more for a header that is not a cell yet. -/
theorem Acyclic.spanLength_eq (h : s.Acyclic) (v : VectorId) : StoreM.spanLength s v =
    s.lengthAlong (s.vector v).orientation (s.children (.vector v)) +
      (s.pendingHeader (.vector v)).toNat := by
  rw [StoreM.spanLength, h.extent_eq]
  simp [extentOver, stacked, lengthAlong, Function.comp_def]

/-! ## Nodes that are left as they are -/

theorem Intact.orientation (h : Intact s t e) : t.orientation? e = s.orientation? e := by
  cases e with
  | vector v => rw [orientation?, show t.vector v = _ from h]; rfl
  | frame f => rw [orientation?, show t.frame f = _ from h]; rfl
  | stack k => rw [orientation?, show t.stack k = _ from h]; rfl
  | _ => rfl

theorem Intact.pendingHeader (h : Intact s t e) : t.pendingHeader e = s.pendingHeader e := by
  cases e with
  | vector v => rw [Store.pendingHeader, show t.vector v = _ from h]; rfl
  | _ => rfl

theorem Intact.extentOver (h : Intact s t e) (below : List Extent) :
    t.extentOver below e = s.extentOver below e := by
  cases e with
  | cell c => exact congrArg CellNode.merge h
  | vector v =>
      have pending := h.pendingHeader
      have axis : (t.vector v).orientation = (s.vector v).orientation :=
        Option.some.inj h.orientation
      simp only [Store.extentOver, pending, axis]
  | frame f => simp only [Store.extentOver, Option.some.inj h.orientation]
  | stack k => simp only [Store.extentOver, Option.some.inj h.orientation]
  | _ => rfl

theorem Intact.left (h : Intact s t e) (children : t.children e = s.children e)
    (container : e.isContainer = true) : Left s t e := by
  cases e with
  | vector v =>
      have same : (t.vector v).children = (s.vector v).children := children
      rw [Left, show t.vector v = _ from h, same]
  | frame f =>
      have same : (t.frame f).children = (s.frame f).children := children
      rw [Left, show t.frame f = _ from h, same]
  | stack k =>
      have same : (t.stack k).children = (s.stack k).children := children
      rw [Left, show t.stack k = _ from h, same]
  | _ => cases container

/-- A tree is as large as before if all of its nodes are left as they are. -/
theorem extent_congr (hs : s.Acyclic) (ht : t.Acyclic)
    (left : ∀ x, Reach s e x → Left s t x) : t.extent e = s.extent e := by
  induction e using hs.induction with
  | step e ih =>
      have here := left e .root
      have below : (t.children e).map t.extent = (s.children e).map s.extent := by
        rw [here.children]
        exact List.map_congr_left fun child below =>
          ih child below fun x reach => left x ((reach_of_child below).trans reach)
      rw [ht.extent_eq, hs.extent_eq, below, here.intact.extentOver]

theorem extent_of_not_isContainer (h : Intact s t e) (leaf : e.isContainer = false) :
    t.extent e = s.extent e := by
  cases e with
  | cell c => exact congrArg CellNode.merge h
  | gap g => rfl
  | expression x => rfl
  | call c => rfl
  | _ => cases leaf

/-! ## Each kind of container -/

/-- Whether some elements are the children of a vector with cells in the place of its gaps. -/
def Spelled (s t : Store) (v : VectorId) (l : List Element) : Prop :=
  Expands (fun g => GapCells g g.size s t) (s.children (.vector v)) l

/-- Whether a frame has vectors in the place of its gaps, as long as its longest one, and its shorter
vectors are filled up. -/
structure Levelled (s t : Store) (f : FrameId) : Prop where
  expands : Expands (fun g =>
    GapVectors g (s.frame f).orientation.cross (max (s.depth f) 1) s t)
    (s.children (.frame f)) (t.children (.frame f))
  filled : ∀ v ∈ s.frameVectors f, ∃ l filler, t.children (.vector v) = l ++ filler ∧
    Spelled s t v l ∧
    GapCells { size := 0, fill := (s.frame f).fillEmpty } (s.depth f - s.naturalLength v) s t filler

/-- Whether a stack has blocks in the place of its gaps, as broad as its other children. -/
def Blocked (s t : Store) (k : StackId) : Prop :=
  let o := (s.stack k).orientation
  Expands (fun g => GapBlock g o (max (t.breadth o (s.children (.stack k))) 1) s t)
    (s.children (.stack k)) (t.children (.stack k))

/-- Whether all containers under an element, which is in no frame itself, have been gone through. -/
structure Exploded (s t : Store) (e : Element) : Prop where
  vector : ∀ v, Reach s e (.vector v) →
    (∀ f, Reach s e (.frame f) → .vector v ∉ s.children (.frame f)) →
    Spelled s t v (t.children (.vector v))
  frame : ∀ f, Reach s e (.frame f) → Levelled s t f
  stack : ∀ k, Reach s e (.stack k) → Blocked s t k

/-! ## Below each kind of container -/

theorem eq_of_reach_leaf {x : Element} (leaf : e.isContainer = false) (reach : Reach s e x) :
    x = e := by
  rcases reach.eq_or_child with same | ⟨child, below, -⟩
  · exact same
  · rw [isContainer_of_child below] at leaf
    cases leaf

theorem Regular.reach_vector (h : s.Regular) {v : VectorId} {x : Element}
    (reach : Reach s (.vector v) x) : x = .vector v ∨ x.isContainer = false := by
  rcases reach.eq_or_child with same | ⟨child, below, reach⟩
  · exact .inl same
  · have leaf : child.isContainer = false := h.takes _ _ below
    exact .inr (eq_of_reach_leaf leaf reach ▸ leaf)

theorem Regular.reach_frame (h : s.Regular) {f : FrameId} {x : Element}
    (reach : Reach s (.frame f) x) :
    x = .frame f ∨ (∃ v ∈ s.frameVectors f, x = .vector v) ∨ x.isContainer = false := by
  rcases reach.eq_or_child with same | ⟨child, below, reach⟩
  · exact .inl same
  · have takes := h.takes _ _ below
    cases child with
    | vector v =>
        rcases h.reach_vector reach with rfl | leaf
        · exact .inr (.inl ⟨v, mem_frameVectors.2 below, rfl⟩)
        · exact .inr (.inr leaf)
    | cell | gap | expression | call =>
        exact .inr (.inr (eq_of_reach_leaf rfl reach ▸ rfl))
    | frame | stack => cases takes.1

/-- No container is in two trees of a forest. -/
theorem Forest.disjoint {before after : List Element} (h : s.Forest (before ++ after))
    (acyclic : s.Acyclic) {d e x : Element} (hd : d ∈ before) (he : e ∈ after)
    (hx : x.isContainer = true) (reach : Reach s d x) : ¬Reach s e x := by
  intro reach'
  obtain ⟨n, node⟩ : ∃ n, x.node? = some n := by
    cases x <;> first | exact ⟨_, rfl⟩ | cases hx
  rw [← element_of_node? node] at reach reach'
  rw [Forest, nodesUnder_append] at h
  exact List.disjoint_of_nodup_append h (acyclic.mem_nodesUnder.2 ⟨d, hd, reach⟩)
    (acyclic.mem_nodesUnder.2 ⟨e, he, reach'⟩)

theorem exploded_leaf (leaf : e.isContainer = false) : Exploded s t e where
  vector v reach := by cases eq_of_reach_leaf leaf reach; cases leaf
  frame f reach := by cases eq_of_reach_leaf leaf reach; cases leaf
  stack k reach := by cases eq_of_reach_leaf leaf reach; cases leaf

theorem exploded_vector (regular : s.Regular) {v : VectorId}
    (h : Spelled s t v (t.children (.vector v))) : Exploded s t (.vector v) where
  vector w reach _ := by
    rcases regular.reach_vector reach with same | leaf
    · cases same
      exact h
    · cases leaf
  frame f reach := by rcases regular.reach_vector reach with same | leaf <;> contradiction
  stack k reach := by rcases regular.reach_vector reach with same | leaf <;> contradiction

theorem exploded_frame (regular : s.Regular) {f : FrameId} (h : Levelled s t f) :
    Exploded s t (.frame f) where
  vector w reach free := by
    rcases regular.reach_frame reach with same | ⟨v, hv, same⟩ | leaf
    · cases same
    · cases same
      exact absurd (mem_frameVectors.1 hv) (free f .root)
    · cases leaf
  frame g reach := by
    rcases regular.reach_frame reach with same | ⟨v, hv, same⟩ | leaf
    · cases same
      exact h
    · cases same
    · cases leaf
  stack k reach := by
    rcases regular.reach_frame reach with same | ⟨v, hv, same⟩ | leaf
    · cases same
    · cases same
    · cases leaf

theorem exploded_stack {k : StackId} (children : ∀ child ∈ s.children (.stack k), Exploded s t child)
    (h : Blocked s t k) : Exploded s t (.stack k) where
  vector v reach free := by
    rcases reach.eq_or_child with same | ⟨child, below, reach⟩
    · cases same
    · exact (children child below).vector v reach fun f above =>
        free f ((reach_of_child below).trans above)
  frame f reach := by
    rcases reach.eq_or_child with same | ⟨child, below, reach⟩
    · cases same
    · exact (children child below).frame f reach
  stack l reach := by
    rcases reach.eq_or_child with same | ⟨child, below, reach⟩
    · cases same
      exact h
    · exact (children child below).stack l reach

/-! ## What is below in the end -/

/-- Whether every container under an element still holds its children in their order, apart from the
gaps, and else only what stands for gaps. -/
def Gathers (s t : Store) (e : Element) : Prop :=
  ∀ x, Reach s e x → ∃ l filler, t.children x = l ++ filler ∧
    Expands (fun _ new => ∀ z ∈ new, GapMade s t z) (s.children x) l ∧ ∀ z ∈ filler, GapMade s t z

theorem Gathers.below (h : Gathers s t e) {x : Element} (reach : Reach s e x) : Gathers s t x :=
  fun y reach' => h y (reach.trans reach')

theorem Gathers.child (h : Gathers s t e) {z : Element} (hz : z ∈ t.children e) :
    z ∈ s.children e ∨ GapMade s t z := by
  obtain ⟨l, filler, children, expands, made⟩ := h e .root
  rw [children] at hz
  rcases List.mem_append.1 hz with hz | hz
  · rcases expands.mem_cases hz with ⟨old, -⟩ | ⟨g, new, fits, hz⟩
    · exact .inl old
    · exact .inr (fits z hz)
  · exact .inr (made z hz)

theorem Gathers.reach_cases (h : Gathers s t e) (acyclic : s.Acyclic) {x : Element}
    (reach : Reach t e x) : Reach s e x ∨ GapMade s t x := by
  induction e using acyclic.induction with
  | step e ih =>
      rcases reach.eq_or_child with rfl | ⟨child, below, reach⟩
      · exact .inl .root
      · rcases h.child below with old | made
        · exact (ih child old (h.below (reach_of_child old)) reach).imp
            (fun under => (reach_of_child old).trans under) id
        · exact .inr (made.reach reach)

theorem Levelled.vector {f : FrameId} (h : Levelled s t f) {v : VectorId}
    (hv : v ∈ s.frameVectors f) : ∃ l filler, t.children (.vector v) = l ++ filler ∧
      Spelled s t v l ∧ ∀ z ∈ filler, GapMade s t z := by
  obtain ⟨l, filler, children, spelled, filled⟩ := h.filled v hv
  exact ⟨l, filler, children, spelled, filled.made⟩

theorem Exploded.vector_cases (h : Exploded s t e) {v : VectorId} (reach : Reach s e (.vector v)) :
    ∃ l filler, t.children (.vector v) = l ++ filler ∧ Spelled s t v l ∧
      ∀ z ∈ filler, GapMade s t z := by
  by_cases inFrame : ∃ f, Reach s e (.frame f) ∧ .vector v ∈ s.children (.frame f)
  · obtain ⟨f, above, below⟩ := inFrame
    exact (h.frame f above).vector (mem_frameVectors.2 below)
  · have spelled := h.vector v reach fun f above below => inFrame ⟨f, above, below⟩
    exact ⟨_, [], (List.append_nil _).symm, spelled, by simp⟩

theorem Exploded.gathers (h : Exploded s t e) : Gathers s t e := by
  intro x reach
  cases x with
  | vector v =>
      obtain ⟨l, filler, children, spelled, made⟩ := h.vector_cases reach
      exact ⟨l, filler, children, Expands.imp spelled fun _ _ fits => fits.made, made⟩
  | frame f =>
      exact ⟨_, [], (List.append_nil _).symm, (h.frame f reach).expands.imp fun _ _ fits => fits.made,
        by simp⟩
  | stack k =>
      exact ⟨_, [], (List.append_nil _).symm, Expands.imp (h.stack k reach) fun _ _ fits => fits.made,
        by simp⟩
  | _ => exact ⟨[], [], rfl, .nil, by simp⟩

/-! ## Later steps elsewhere -/

theorem Spelled.later {v : VectorId} (h : Spelled s t v l) (spared : Spared s t u) :
    Spelled s u v l :=
  Expands.imp h fun g _ fits => (enduring_gapCells g g.size).later fits spared

theorem Levelled.later {f : FrameId} (h : Levelled s t f) (spared : Spared s t u)
    (frame : u.children (.frame f) = t.children (.frame f))
    (vectors : ∀ v ∈ s.frameVectors f, u.children (.vector v) = t.children (.vector v)) :
    Levelled s u f where
  expands := by
    rw [frame]
    exact h.expands.imp fun g _ fits => (enduring_gapVectors g _ _).later fits spared
  filled v hv := by
    obtain ⟨l, filler, children, spelled, filled⟩ := h.filled v hv
    exact ⟨l, filler, (vectors v hv).trans children, spelled.later spared,
      (enduring_gapCells _ _).later filled spared⟩

/-- Leaving gaps out does not make a list narrower. -/
theorem breadth_filter (o : Orientation) (l : List Element) {p : Element → Bool}
    (gaps : ∀ e, p e = false → ∃ g, e = .gap g) :
    o.across (stacked o ((l.filter p).map s.extent)) = s.breadth o l := by
  rw [stacked, Orientation.across_extent, breadth, List.map_map]
  refine le_antisymm (foldl_max_le_iff.2 ⟨Nat.zero_le _, fun n hn => ?_⟩)
    (foldl_max_le_iff.2 ⟨Nat.zero_le _, fun n hn => ?_⟩)
  · obtain ⟨e, he, rfl⟩ := List.mem_map.1 hn
    exact le_foldl_max_of_mem (List.mem_map_of_mem (List.mem_filter.1 he).1)
  · obtain ⟨e, he, rfl⟩ := List.mem_map.1 hn
    cases keep : p e with
    | true => exact le_foldl_max_of_mem (List.mem_map_of_mem (List.mem_filter.2 ⟨he, keep⟩))
    | false =>
        obtain ⟨g, rfl⟩ := gaps e keep
        have none : o.across (s.extent (.gap g)) = 0 := by cases o <;> rfl
        exact none.trans_le (Nat.zero_le _)

theorem breadth_congr (same : ∀ e ∈ l, t.extent e = s.extent e) : t.breadth o l = s.breadth o l := by
  refine congrArg (List.foldl max 0) (List.map_congr_left fun e he => ?_)
  rw [same e he]

theorem Exploded.later (h : Exploded s t e) (hs : s.Acyclic) (ht : t.Acyclic) (hu : u.Acyclic)
    (spared : Spared s t u) (left : ∀ x, Reach s e x → Left t u x) : Exploded s u e where
  vector v reach free := by
    rw [(left _ reach).children]
    exact (h.vector v reach free).later spared
  frame f reach :=
    (h.frame f reach).later spared (left _ reach).children fun v hv =>
      (left _ (.child reach (mem_frameVectors.1 hv))).children
  stack k reach := by
    have sizes : ∀ child ∈ s.children (.stack k), u.extent child = t.extent child := by
      intro child below
      have under := Reach.child reach below
      refine extent_congr ht hu fun x reach' => ?_
      rcases (h.gathers.below under).reach_cases hs reach' with old | made
      · exact left x (under.trans old)
      · exact (spared x made.novel).2
    have blocked := h.stack k reach
    simp only [Blocked, breadth_congr sizes, (left _ reach).children] at blocked ⊢
    exact blocked.imp fun g _ fits => (enduring_gapBlock g _ _).later fits spared

end Store

/-! ## Going through a container -/

namespace StoreM

variable {s t m : Store} {e : Element}

/-- A vector whose gaps have become cells is as long as it was with them. -/
theorem spanLength_of_spelled (wf : m.WellFormed) (regular : s.Regular) {v : VectorId}
    (intact : ∀ x, x = .vector v ∨ x ∈ s.children (.vector v) → Intact s m x)
    {n : Nat} {l filler : List Element} (children : m.children (.vector v) = l ++ filler)
    (spelled : Spelled s m v l) {p : Store} {g : Gap} (filled : GapCells g n p m filler) :
    spanLength m v = s.naturalLength v + n := by
  have axis : (m.vector v).orientation = (s.vector v).orientation :=
    Option.some.inj (intact _ (.inl rfl)).orientation
  have pending := (intact _ (.inl rfl)).pendingHeader
  have plain : m.lengthAlong (s.vector v).orientation l =
      m.fullLength (s.vector v).orientation (s.children (.vector v)) :=
    Expands.lengthAlong_eq spelled fun g _ fits => fits.lengthAlong _
  have same : m.fullLength (s.vector v).orientation (s.children (.vector v)) =
      s.fullLength (s.vector v).orientation (s.children (.vector v)) := by
    refine congrArg Number.total (List.map_congr_left fun child below => ?_)
    have size := extent_of_not_isContainer (intact child (.inr below)) (regular.takes _ _ below)
    cases child with
    | gap g => rfl
    | _ => rw [advance_eq _ _ (by simp), advance_eq _ _ (by simp), size]
  rw [wf.acyclic.spanLength_eq, axis, pending, children, lengthAlong_append, plain, same,
    filled.lengthAlong, naturalLength]
  omega

theorem fillUp_edits (wf : s.WellFormed) {g : Gap} {depth : Nat} {v : VectorId}
    (hv : s.InStore (.vector v)) {r : Unit} (h : Leads (fillUp g depth v) s r t) :
    Edits (· = .vector v) s t ∧ ∃ filler, t.children (.vector v) = s.children (.vector v) ++ filler ∧
      GapCells g (depth - spanLength s v) s t filler := by
  simp only [fillUp, leads_bind, leads_get, leads_modify] at h
  obtain ⟨_, _, ⟨rfl, rfl⟩, filler, u, made, rfl⟩ := h
  obtain ⟨plants, cells⟩ := gapCells_made wf made
  have spared : Edits (fun _ => False) s u :=
    ⟨plants.spares.held, fun e he => (plants.spares.left e he).intact,
      fun e he _ => plants.spares.left e he⟩
  rw [updateVector_append]
  have grown := edits_setChildren u (.vector v) (u.children (.vector v) ++ filler)
  refine ⟨(spared.trans grown).imp fun x _ h => h.elim False.elim id, filler, ?_, ?_⟩
  · rw [children_setChildren_self (plants.spares.held _ hv) rfl, plants.spares.children hv]
  · exact (enduring_gapCells g _).later cells (grown.spared fun _ => (· ▸ hv))

theorem spanLength_of_gapVector {g : Gap} {o : Orientation} {n : Nat} {v : VectorId}
    (h : GapVector g o n s t v) (acyclic : t.Acyclic) : spanLength t v = n := by
  have length := h.children.lengthAlong (t.vector v).orientation
  obtain ⟨-, cells, -, is⟩ := h
  have blank : t.pendingHeader (.vector v) = false := by rw [pendingHeader, is]; rfl
  rw [acyclic.spanLength_eq, length, blank]
  rfl

/-- A vector that is long enough stays as it is. -/
theorem fillUp_left (wf : s.WellFormed) {g : Gap} {depth : Nat} {v : VectorId}
    (hv : s.InStore (.vector v)) (long : depth ≤ spanLength s v) {r : Unit}
    (h : Leads (fillUp g depth v) s r t) : Edits (fun _ => False) s t := by
  obtain ⟨edits, filler, children, cells, rfl, none, -⟩ := fillUp_edits wf hv h
  obtain rfl := List.eq_nil_of_length_eq_zero (none.trans (Nat.sub_eq_zero_of_le long))
  rw [List.map_nil, List.append_nil] at children
  refine ⟨edits.held, edits.intact, fun e he _ => ?_⟩
  by_cases here : e = .vector v
  · subst here
    exact (edits.intact _ he).left children rfl
  · exact edits.left e he here

/-- Whether a vector holds some elements and a number of filling cells behind them. -/
def Padded (g : Gap) (n : Nat) (s t : Store) (v : VectorId) (l : List Element) : Prop :=
  ∃ filler, t.children (.vector v) = l ++ filler ∧ GapCells g n s t filler

theorem Padded.later {g : Gap} {n : Nat} {u : Store} {v : VectorId} {l : List Element}
    (h : Padded g n s t v l) (spared : Spared s t u)
    (same : u.children (.vector v) = t.children (.vector v)) : Padded g n s u v l := by
  obtain ⟨filler, children, cells⟩ := h
  exact ⟨filler, same.trans children, (enduring_gapCells g n).later cells spared⟩

theorem padded_zero (g : Gap) (s t : Store) (v : VectorId) :
    Padded g 0 s t v (t.children (.vector v)) :=
  ⟨[], (List.append_nil _).symm, [], rfl, rfl, by simp⟩

/-! ## Levelling a frame -/

/-- How the vectors of a frame stand when its gaps are replaced and some of the vectors have been
filled up. -/
structure Rising (s p q : Store) (f : FrameId) (g : Gap) : Prop where
  wf : q.WellFormed
  edits : Edits (fun x => ∃ v ∈ s.frameVectors f, x = .vector v) p q
  padded : ∀ v ∈ s.frameVectors f, ∃ n ≤ s.depth f - s.naturalLength v,
    Padded g n p q v (p.children (.vector v))

section

variable {p q : Store} {f : FrameId} {g : Gap}

theorem Rising.start (wf : p.WellFormed) : Rising s p p f g :=
  ⟨wf, .refl p, fun v _ => ⟨0, Nat.zero_le _, padded_zero g p p v⟩⟩

theorem Rising.spared (h : Rising s p q f g)
    (old : ∀ v ∈ s.frameVectors f, u.InStore (.vector v)) : Spared u p q :=
  h.edits.spared (by
    rintro x ⟨v, hv, rfl⟩
    exact old v hv)

/-- A vector that stands for a gap stays as long as it was made. -/
theorem Rising.made (h : Rising s p q f g) {o : Orientation} {n : Nat}
    (expands : Expands (fun g => GapVectors g o n u p) (s.children (.frame f))
      (p.children (.frame f)))
    (old : ∀ v ∈ s.frameVectors f, u.InStore (.vector v)) {v : VectorId}
    (hv : v ∈ p.frameVectors f) (other : v ∉ s.frameVectors f) : spanLength q v = n := by
  rcases expands.mem_cases (mem_frameVectors.1 hv) with ⟨own, -⟩ | ⟨g, l, fits, hl⟩
  · exact absurd (mem_frameVectors.2 own) other
  · obtain ⟨ids, rfl, -, each⟩ := fits
    obtain ⟨w, hw, same⟩ := List.mem_map.1 hl
    cases same
    exact spanLength_of_gapVector ((enduring_gapVector g _ _).later (each v hw) (h.spared old))
      h.wf.acyclic

variable (regular : s.Regular) (held : ∀ x, s.InStore x → p.InStore x)
  (intact : ∀ x, s.InStore x → Intact s p x)
  (spelled : ∀ v ∈ s.frameVectors f, Spelled s p v (p.children (.vector v)))

include regular held intact spelled

/-- In between, a vector is longer than by itself by the cells it has been filled up with. -/
theorem Rising.spanLength (h : Rising s p q f g) {v : VectorId} (hv : v ∈ s.frameVectors f) {n : Nat}
    (padded : Padded g n p q v (p.children (.vector v))) :
    spanLength q v = s.naturalLength v + n := by
  have inside : s.InStore (.vector v) := regular.closed _ _ (mem_frameVectors.1 hv)
  obtain ⟨filler, children, cells⟩ := padded
  have still : Spelled s q v (p.children (.vector v)) :=
    (spelled v hv).later (h.spared fun w hw => regular.closed _ _ (mem_frameVectors.1 hw))
  refine spanLength_of_spelled h.wf regular (fun x hx => ?_) children still cells
  have old : s.InStore x := by
    rcases hx with rfl | hx
    · exact inside
    · exact regular.closed _ _ hx
  exact (intact x old).trans (h.edits.intact x (held x old))

/-- Filling up one vector of the frame. -/
theorem Rising.step (h : Rising s p q f g)
    (new : ∀ v ∈ p.frameVectors f, v ∉ s.frameVectors f → s.depth f ≤ StoreM.spanLength q v)
    {v : VectorId} (hv : v ∈ p.frameVectors f) (there : q.InStore (.vector v)) {r : Unit}
    {q' : Store} (run : Leads (fillUp g (s.depth f) v) q r q') :
    Rising s p q' f g ∧
      (v ∈ s.frameVectors f →
        Padded g (s.depth f - s.naturalLength v) p q' v (p.children (.vector v))) ∧
      ∀ w ∈ s.frameVectors f,
        Padded g (s.depth f - s.naturalLength w) p q w (p.children (.vector w)) →
        Padded g (s.depth f - s.naturalLength w) p q' w (p.children (.vector w)) := by
  have wf' := (fillUp_fills h.wf there run).1.wf
  have old : ∀ w ∈ s.frameVectors f, p.InStore (.vector w) :=
    fun w hw => held _ (regular.closed _ _ (mem_frameVectors.1 hw))
  by_cases mine : v ∈ s.frameVectors f
  · obtain ⟨n, short, padded⟩ := h.padded v mine
    have length := h.spanLength regular held intact spelled mine padded
    obtain ⟨edits, filler, children, cells⟩ := fillUp_edits h.wf there run
    have spared : Spared p q q' := edits.spared fun x here => here ▸ old v mine
    have others : ∀ w, w ≠ v → w ∈ s.frameVectors f →
        q'.children (.vector w) = q.children (.vector w) := fun w ne hw =>
      (edits.left _ (h.edits.held _ (old w hw)) fun same => ne (by cases same; rfl)).children
    have full : Padded g (s.depth f - s.naturalLength v) p q' v (p.children (.vector v)) := by
      obtain ⟨front, children', cells'⟩ := padded
      have behind := ((enduring_gapCells g n).later cells' spared).append
        ((enduring_gapCells g _).earlier cells h.edits.held)
      have count : n + (s.depth f - StoreM.spanLength q v) = s.depth f - s.naturalLength v := by
        omega
      rw [count] at behind
      exact ⟨front ++ filler, by rw [children, children', List.append_assoc], behind⟩
    have later : ∀ w ∈ s.frameVectors f, ∀ n, w ≠ v → Padded g n p q w (p.children (.vector w)) →
        Padded g n p q' w (p.children (.vector w)) :=
      fun w hw n ne padded => padded.later spared (others w ne hw)
    refine ⟨⟨wf', (h.edits.trans edits).imp ?_, fun w hw => ?_⟩, fun _ => full, fun w hw padded => ?_⟩
    · rintro x - (here | rfl)
      · exact here
      · exact ⟨v, mine, rfl⟩
    · by_cases same : w = v
      · exact same ▸ ⟨_, le_refl _, full⟩
      · obtain ⟨n, short, padded⟩ := h.padded w hw
        exact ⟨n, short, later w hw n same padded⟩
    · by_cases same : w = v
      · exact same ▸ full
      · exact later w hw _ same padded
  · have edits := fillUp_left h.wf there (new v hv mine) run
    have same : ∀ w ∈ s.frameVectors f, ∀ n, Padded g n p q w (p.children (.vector w)) →
        Padded g n p q' w (p.children (.vector w)) := fun w hw n padded =>
      padded.later (edits.spared fun _ => False.elim)
        (edits.left _ (h.edits.held _ (old w hw)) id).children
    refine ⟨⟨wf', (h.edits.trans edits).imp fun x _ here => here.elim id False.elim, fun w hw => ?_⟩,
      fun hv => absurd hv mine, fun w hw padded => same w hw _ padded⟩
    obtain ⟨n, short, padded⟩ := h.padded w hw
    exact ⟨n, short, same w hw n padded⟩

/-- Filling up all vectors of the frame, in which those for gaps are long enough. -/
theorem fillAll_rising (wf : p.WellFormed)
    (new : ∀ u, Rising s p u f g → ∀ v ∈ p.frameVectors f, v ∉ s.frameVectors f →
      s.depth f ≤ StoreM.spanLength u v)
    {r : PUnit} (run : Leads (forIn (p.frameVectors f) PUnit.unit fun v _ => do
      fillUp g (s.depth f) v
      pure (.yield PUnit.unit)) p r q) :
    Rising s p q f g ∧ ∀ v ∈ p.frameVectors f, v ∈ s.frameVectors f →
      Padded g (s.depth f - s.naturalLength v) p q v (p.children (.vector v)) := by
  obtain ⟨rising, full, -⟩ := run.loop (Rising s p · f g)
    (fun v u => v ∈ s.frameVectors f →
      Padded g (s.depth f - s.naturalLength v) p u v (p.children (.vector v)))
    (.start wf) (by
      intro v hv u r u' rising step
      simp only [leads_bind, leads_pure] at step
      obtain ⟨_, _, filled, rfl, rfl⟩ := step
      have there := rising.edits.held _ (wf.closed _ _ (mem_frameVectors.1 hv))
      obtain ⟨next, done, stays⟩ :=
        rising.step regular held intact spelled (new u rising) hv there filled
      exact ⟨rfl, next, done, fun w padded hw => stays w hw (padded hw)⟩)
  exact ⟨rising, full⟩

/-- The frame is as deep as before its gaps were replaced. -/
theorem depth_of_spelled (wf : p.WellFormed) :
    ((s.frameVectors f).map (StoreM.spanLength p)).foldl max 0 = s.depth f := by
  refine congrArg (List.foldl max 0) (List.map_congr_left fun v hv => ?_)
  have none : Padded { size := 0 } 0 p p v (p.children (.vector v)) := padded_zero _ p p v
  exact (Rising.start wf).spanLength regular held intact spelled hv none

end

/-- A frame whose vectors have cells for gaps is levelled. -/
theorem levelFrame_levelled (regular : s.Regular) (held : ∀ x, s.InStore x → m.InStore x)
    (intact : ∀ x, s.InStore x → Intact s m x) (wf : m.WellFormed) {f : FrameId}
    (hf : s.InStore (.frame f)) (left : Left s m (.frame f))
    (spelled : ∀ v ∈ s.frameVectors f, Spelled s m v (m.children (.vector v))) {r : Unit}
    (h : Leads (levelFrame f) m r t) :
    Edits (fun x => x = .frame f ∨ ∃ v ∈ s.frameVectors f, x = .vector v) m t ∧
      Levelled s t f := by
  have frame : m.frame f = s.frame f := left
  have vectors : m.frameVectors f = s.frameVectors f := by rw [frameVectors, frame, frameVectors]
  have old : ∀ v ∈ s.frameVectors f, s.InStore (.vector v) :=
    fun v hv => regular.closed _ _ (mem_frameVectors.1 hv)
  simp only [levelFrame, leads_bind, leads_get] at h
  obtain ⟨_, _, ⟨rfl, rfl⟩, _, p, first, _, _, ⟨rfl, rfl⟩, _, q, loop, hq⟩ := h
  obtain ⟨-, rfl⟩ := leads_pure.1 hq
  rw [vectors, depth_of_spelled regular held intact spelled wf, frame] at first loop
  obtain ⟨replaced, expands⟩ := replaceGaps_expands (fun g => enduring_gapVectors g _ _)
    (fun _ _ _ _ wf h => gapVectors_made wf h) wf (held _ hf) rfl first
  rw [left.children] at expands
  -- Once the gaps are replaced, everything that was there is as it was.
  have wfp : p.WellFormed :=
    (replaceGaps_fills wf (held _ hf) rfl (fun _ => gapVectors_makes _ _ _) first).1.wf
  have heldp : ∀ x, s.InStore x → p.InStore x := fun x hx => replaced.held x (held x hx)
  have intactp : ∀ x, s.InStore x → Intact s p x :=
    fun x hx => (intact x hx).trans (replaced.intact x (held x hx))
  have spelledp : ∀ v ∈ s.frameVectors f, Spelled s p v (p.children (.vector v)) := by
    intro v hv
    rw [(replaced.left (.vector v) (held _ (old v hv)) (by simp)).children]
    exact (spelled v hv).later (replaced.spared fun _ => (· ▸ hf))
  obtain ⟨rising, full⟩ := fillAll_rising regular heldp intactp spelledp wfp
    (fun u rising v hv other =>
      (rising.made expands (fun v hv => held _ (old v hv)) hv other).ge.trans' (le_max_left _ _))
    loop
  refine ⟨(replaced.trans rising.edits).imp fun x _ here => here, ?_, fun v hv => ?_⟩
  · rw [(rising.edits.left (.frame f) (heldp _ hf) (by simp)).children]
    refine expands.imp fun g l fits => (enduring_gapVectors g _ _).earlier ?_ held
    exact (enduring_gapVectors g _ _).later fits (rising.spared fun v hv => held _ (old v hv))
  · have below : v ∈ p.frameVectors f :=
      mem_frameVectors.2 (expands.mem_of_mem (mem_frameVectors.1 hv) (by simp))
    obtain ⟨filler, children, cells⟩ := full v below hv
    exact ⟨_, filler, children, (spelledp v hv).later (rising.spared old),
      (enduring_gapCells _ _).earlier cells heldp⟩

/-! ## One container -/

variable {touched : Element → Prop}

theorem levelStack_blocked (wf : s.WellFormed) {k : StackId} (hk : s.InStore (.stack k))
    (before : Edits touched s m) (own : ¬touched (.stack k)) (wfm : m.WellFormed)
    (children : ∀ child ∈ s.children (.stack k), Exploded s m child) {r : Unit}
    (h : Leads (levelStack k) m r t) : Edits (· = .stack k) m t ∧ Exploded s t (.stack k) := by
  have left := before.left _ hk own
  have axis : (m.stack k).orientation = (s.stack k).orientation := congrArg (·.orientation) left
  have wft := (explode_fills wfm (before.held _ hk) h).1.wf
  simp only [levelStack, leads_bind, leads_get] at h
  obtain ⟨_, _, ⟨rfl, rfl⟩, h⟩ := h
  obtain ⟨edits, expands⟩ := replaceGaps_expands (fun g => enduring_gapBlock g _ _)
    (fun _ _ _ _ wf step => gapBlock_alone wf step) wfm (before.held _ hk) rfl h
  have apart : ∀ child ∈ s.children (.stack k), ∀ x, Reach m child x → x ≠ .stack k := by
    rintro child below x reach rfl
    rcases (children child below).gathers.reach_cases wf.acyclic reach with cycle | new
    · exact wf.acyclic _ child below cycle
    · exact new.novel.new hk
  have sizes : ∀ child ∈ s.children (.stack k), t.extent child = m.extent child := by
    intro child below
    have there := before.held child (wf.closed _ _ below)
    exact extent_congr wfm.acyclic wft.acyclic fun x reach =>
      edits.left x (wfm.inStore_of_reach there reach) (apart child below x reach)
  refine ⟨edits, exploded_stack (fun child below => ?_) ?_⟩
  · refine (children child below).later wf.acyclic wfm.acyclic wft.acyclic
      (edits.spared fun _ => (· ▸ hk)) fun x reach => ?_
    have old := wf.inStore_of_reach (wf.closed _ _ below) reach
    refine edits.left x (before.held x old) ?_
    rintro rfl
    exact wf.acyclic _ child below reach
  · have source : (m.stack k).children = s.children (.stack k) := left.children
    rw [left.children] at expands
    simp only [axis, source] at expands
    refine expands.imp fun g l fits => (enduring_gapBlock g _ _).earlier ?_ before.held
    rwa [breadth_filter _ _ fun x hx => by cases x <;> simp at hx ⊢,
      ← breadth_congr sizes] at fits

theorem explode_exploded (wf : s.WellFormed) (regular : s.Regular) (he : s.InStore e)
    (before : Edits touched s m) (own : ¬touched e) (wfm : m.WellFormed)
    (children : ∀ child ∈ s.children e, Exploded s m child) {r : Unit}
    (h : Leads (explode e) m r t) :
    Edits (fun x => x.isContainer = true ∧ Reach s e x) m t ∧ Exploded s t e := by
  have left := before.left e he own
  have there := before.held e he
  cases e with
  | vector v =>
      obtain ⟨edits, expands⟩ := replaceGaps_expands (fun g => enduring_gapCells g g.size)
        (fun _ _ _ _ wf h => gapCells_made wf h) wfm there rfl h
      rw [left.children] at expands
      exact ⟨edits.imp fun x _ same => by subst same; exact ⟨rfl, .root⟩, exploded_vector regular
        (expands.imp fun g l fits => (enduring_gapCells g _).earlier fits before.held)⟩
  | frame f =>
      have spelled : ∀ v ∈ s.frameVectors f, Spelled s m v (m.children (.vector v)) := by
        intro v hv
        refine (children _ (mem_frameVectors.1 hv)).vector v .root fun g reach => ?_
        rcases regular.reach_vector reach with same | leaf
        · cases same
        · cases leaf
      obtain ⟨edits, levelled⟩ := levelFrame_levelled regular before.held before.intact wfm he left
        spelled h
      refine ⟨edits.imp fun x _ here => ?_, exploded_frame regular levelled⟩
      rcases here with rfl | ⟨v, hv, rfl⟩
      · exact ⟨rfl, .root⟩
      · exact ⟨rfl, reach_of_child (mem_frameVectors.1 hv)⟩
  | stack k =>
      obtain ⟨edits, exploded⟩ := levelStack_blocked wf he before own wfm children h
      exact ⟨edits.imp fun x _ same => by subst same; exact ⟨rfl, .root⟩, exploded⟩
  | _ =>
      obtain ⟨-, rfl⟩ := leads_pure.1 h
      exact ⟨.refl _, exploded_leaf rfl⟩

/-! ## Everything below -/

/-- A list of trees that share no node, gone through one after the other. -/
theorem explodeAll_exploded {fuel : Nat} {l : List Element} (wf : s.WellFormed)
    (inside : ∀ e ∈ l, s.InStore e) (forest : s.Forest l)
    (each : ∀ e ∈ l, ∀ (touched : Element → Prop) a r b, Edits touched s a →
      (∀ x, touched x → x.isContainer = true ∧ ¬Reach s e x) → a.WellFormed →
      Leads (explodeWithin fuel e) a r b →
      Edits (fun x => x.isContainer = true ∧ Reach s e x) a b ∧ Exploded s b e)
    {a b : Store} (before : Edits touched s a)
    (apart : ∀ e ∈ l, ∀ x, touched x → x.isContainer = true ∧ ¬Reach s e x) (wfa : a.WellFormed)
    {r : PUnit} (h : Leads (forIn l PUnit.unit fun e _ => do
      explodeWithin fuel e
      pure (.yield PUnit.unit)) a r b) :
    Edits (fun x => x.isContainer = true ∧ ∃ e ∈ l, Reach s e x) a b ∧ b.WellFormed ∧
      ∀ e ∈ l, Exploded s b e := by
  induction l generalizing a touched with
  | nil =>
      obtain ⟨-, rfl⟩ := leads_pure.1 (List.forIn_nil (m := StateM Store) ▸ h)
      exact ⟨.refl a, wfa, by simp⟩
  | cons e l ih =>
      rw [List.forIn_cons, leads_bind] at h
      obtain ⟨_, m, first, rest⟩ := h
      simp only [leads_bind, leads_pure] at first
      obtain ⟨_, _, run, rfl, rfl⟩ := first
      obtain ⟨edits, exploded⟩ := each e (by simp) touched a _ _ before (apart e (by simp)) wfa run
      have wfm := (explodeWithin_fills fuel wfa (before.held e (inside e (by simp))) run).1.wf
      have disjoint : ∀ later ∈ l, ∀ x, x.isContainer = true → Reach s e x → ¬Reach s later x :=
        fun later hl x hc => forest.disjoint (d := e) wf.acyclic (List.mem_singleton_self e) hl hc
      have before' := before.trans edits
      obtain ⟨edits', wfb, others⟩ := ih (fun x hx => inside x (List.mem_cons_of_mem e hx))
        (forest.sublist (List.sublist_cons_self e l)) (fun x hx => each x (List.mem_cons_of_mem e hx))
        before' (fun later hl x here => here.elim (apart later (List.mem_cons_of_mem e hl) x)
          fun own => ⟨own.1, disjoint later hl x own.1 own.2⟩) wfm rest
      refine ⟨(edits.trans edits').imp fun x _ here => ?_, wfb, fun x hx => ?_⟩
      · rcases here with ⟨hc, reach⟩ | ⟨hc, later, hl, reach⟩
        · exact ⟨hc, e, by simp, reach⟩
        · exact ⟨hc, later, List.mem_cons_of_mem e hl, reach⟩
      · rcases List.mem_cons.1 hx with rfl | hx
        · refine exploded.later wf.acyclic wfm.acyclic wfb.acyclic (edits'.spared ?_)
            fun y reach => ?_
          · rintro y ⟨-, later, hl, reach⟩
            exact wf.inStore_of_reach (inside later (List.mem_cons_of_mem x hl)) reach
          · have old := wf.inStore_of_reach (inside x (by simp)) reach
            refine edits'.left y (before'.held y old) ?_
            rintro ⟨hc, later, hl, reach'⟩
            exact disjoint later hl y hc reach reach'
        · exact others x hx

/-- A walk with enough fuel goes through every container below an element, and touches no other. -/
theorem explodeWithin_exploded {rank : Element → Nat} (isRank : s.IsRank rank) (wf : s.WellFormed)
    (regular : s.Regular) {fuel : Nat} {e : Element} (enough : rank e ≤ fuel) (he : s.InStore e)
    (forest : s.Forest [e]) {a b : Store} (before : Edits touched s a)
    (apart : ∀ x, touched x → x.isContainer = true ∧ ¬Reach s e x) (wfa : a.WellFormed) {r : Unit}
    (h : Leads (explodeWithin fuel e) a r b) :
    Edits (fun x => x.isContainer = true ∧ Reach s e x) a b ∧ Exploded s b e := by
  induction fuel generalizing e touched a b r with
  | zero =>
      have := isRank.positive e
      omega
  | succ fuel ih =>
      have own : ¬touched e := fun here => (apart e here).2 .root
      simp only [explodeWithin, leads_bind, leads_get] at h
      obtain ⟨_, _, ⟨rfl, rfl⟩, _, m, loop, last⟩ := h
      rw [(before.left e he own).children] at loop
      obtain ⟨edits, wfm, children⟩ := explodeAll_exploded wf (fun child => wf.closed e child)
        (forest.children wf.acyclic)
        (fun child below touched a r b before apart wfa run =>
          ih (isRank.child_le below enough) (wf.closed e child below)
            ((forest.children wf.acyclic).sublist (List.singleton_sublist.2 below)) before apart wfa run)
        before (fun child below x here => ⟨(apart x here).1, fun reach =>
          (apart x here).2 ((reach_of_child below).trans reach)⟩) wfa loop
      obtain ⟨edits', exploded⟩ := explode_exploded wf regular he (before.trans edits)
        (by
          rintro (here | ⟨-, child, below, reach⟩)
          · exact own here
          · exact wf.acyclic e child below reach) wfm children last
      refine ⟨(edits.trans edits').imp fun x _ here => ?_, exploded⟩
      rcases here with ⟨hc, child, below, reach⟩ | here
      · exact ⟨hc, (reach_of_child below).trans reach⟩
      · exact here

/-- In a tree in which no node is twice, every container is gone through. -/
theorem explodeGaps_exploded (wf : s.WellFormed) (regular : s.Regular) {e : Element}
    (he : s.InStore e) (forest : s.Forest [e]) {r : Unit} (h : Leads (explodeGaps e) s r t) :
    Edits (fun x => x.isContainer = true ∧ Reach s e x) s t ∧ Exploded s t e := by
  obtain ⟨rank, isRank⟩ := wf.acyclic.exists_rank
  simp only [explodeGaps, leads_bind, leads_get] at h
  obtain ⟨_, _, ⟨rfl, rfl⟩, h⟩ := h
  exact explodeWithin_exploded isRank wf regular (isRank.bounded e) he forest
    (.refl s : Edits (fun _ => False) s s) (fun _ => False.elim) wf h

/-! ## Trees stay trees -/

variable {roots : List Element}

theorem fillUp_forest (wf : s.WellFormed) {g : Gap} {depth : Nat} {v : VectorId}
    (hv : s.InStore (.vector v)) {r : Unit} (h : Leads (fillUp g depth v) s r t)
    (inside : ∀ root ∈ roots, s.InStore root) (forest : s.Forest roots) : t.Forest roots := by
  have wft := (fillUp_fills wf hv h).1.wf
  simp only [fillUp, leads_bind, leads_get, leads_modify] at h
  obtain ⟨_, _, ⟨rfl, rfl⟩, filler, u, made, rfl⟩ := h
  obtain ⟨plants, -⟩ := gapCells_made wf made
  rw [updateVector_append] at wft ⊢
  refine forest_setChildren plants wf hv rfl (fun v n => ?_) wft.acyclic inside forest
  rw [plants.spares.children hv, nodesUnder_append, List.count_append]

theorem levelFrame_forest (wf : s.WellFormed) {f : FrameId} (hf : s.InStore (.frame f)) {r : Unit}
    (h : Leads (levelFrame f) s r t) (inside : ∀ root ∈ roots, s.InStore root)
    (forest : s.Forest roots) : t.Forest roots := by
  simp only [levelFrame, leads_bind, leads_get] at h
  obtain ⟨_, _, ⟨rfl, rfl⟩, _, p, first, _, _, ⟨rfl, rfl⟩, _, q, loop, hq⟩ := h
  obtain ⟨-, rfl⟩ := leads_pure.1 hq
  obtain ⟨g, -⟩ := replaceGaps_fills wf hf rfl (fun _ => gapVectors_makes _ _ _) first
  have replaced := replaceGaps_forest (fun g => enduring_gapVectors g _ _)
    (fun _ _ _ _ wf h => gapVectors_made wf h) wf hf rfl first g.wf inside forest
  have run := loop.loop
    (fun u => u.WellFormed ∧ (∀ e, p.InStore e → u.InStore e) ∧ u.Forest roots) (fun _ _ => True)
    ⟨g.wf, fun _ => id, replaced⟩ ?_
  · exact run.1.2.2
  · rintro v hv a r b ⟨wfa, held, forest⟩ step
    simp only [leads_bind, leads_pure] at step
    obtain ⟨_, _, filled, rfl, rfl⟩ := step
    have there := held _ (g.wf.closed _ _ (mem_frameVectors.1 hv))
    have grows := (fillUp_fills wfa there filled).1
    have still := fillUp_forest wfa there filled (fun e he => held e (g.held e (inside e he))) forest
    exact ⟨rfl, ⟨grows.wf, fun e he => grows.held e (held e he), still⟩, trivial, fun _ h => h⟩

theorem explode_forest (wf : s.WellFormed) (he : s.InStore e) {r : Unit}
    (h : Leads (explode e) s r t) (inside : ∀ root ∈ roots, s.InStore root)
    (forest : s.Forest roots) : t.Forest roots := by
  have wft := (explode_fills wf he h).1.wf
  cases e with
  | vector v =>
      exact replaceGaps_forest (fun g => enduring_gapCells g g.size)
        (fun _ _ _ _ wf h => gapCells_made wf h) wf he rfl h wft inside forest
  | frame f => exact levelFrame_forest wf he h inside forest
  | stack k =>
      simp only [explode, levelStack, leads_bind, leads_get] at h
      obtain ⟨_, _, ⟨rfl, rfl⟩, h⟩ := h
      exact replaceGaps_forest (fun g => enduring_gapBlock g _ _)
        (fun _ _ _ _ wf step => gapBlock_alone wf step) wf he rfl h wft inside forest
  | _ =>
      obtain ⟨-, rfl⟩ := leads_pure.1 h
      exact forest

/-- No node comes to be there twice when gaps are replaced. -/
theorem explodeWithin_forest (fuel : Nat) {e : Element} (wf : s.WellFormed) (he : s.InStore e)
    {r : Unit} (h : Leads (explodeWithin fuel e) s r t) (inside : ∀ root ∈ roots, s.InStore root)
    (forest : s.Forest roots) : t.Forest roots := by
  induction fuel generalizing s e r t with
  | zero =>
      obtain ⟨-, rfl⟩ := leads_pure.1 h
      exact forest
  | succ fuel ih =>
      simp only [explodeWithin, leads_bind, leads_get] at h
      obtain ⟨_, _, ⟨rfl, rfl⟩, _, m, loop, last⟩ := h
      have run := loop.loop
        (fun u => u.WellFormed ∧ (∀ e, s.InStore e → u.InStore e) ∧ u.Forest roots)
        (fun _ _ => True) ⟨wf, fun _ => id, forest⟩ ?_
      · obtain ⟨wfm, held, forest⟩ := run.1
        exact explode_forest wfm (held e he) last (fun x hx => held x (inside x hx)) forest
      · rintro child below a r b ⟨wfa, held, forest⟩ step
        simp only [leads_bind, leads_pure] at step
        obtain ⟨_, _, first, rfl, rfl⟩ := step
        have there := held child (wf.closed e child below)
        have grows := (explodeWithin_fills fuel wfa there first).1
        exact ⟨rfl, ⟨grows.wf, fun x hx => grows.held x (held x hx),
          ih wfa there first (fun x hx => held x (inside x hx)) forest⟩, trivial, fun _ h => h⟩

theorem explodeGaps_forest (wf : s.WellFormed) (he : s.InStore e) (forest : s.Forest [e]) {r : Unit}
    (h : Leads (explodeGaps e) s r t) : t.Forest [e] := by
  simp only [explodeGaps, leads_bind, leads_get] at h
  obtain ⟨_, _, ⟨rfl, rfl⟩, h⟩ := h
  exact explodeWithin_forest _ wf he h (by simpa using he) forest

end StoreM

end Spreadsheet
