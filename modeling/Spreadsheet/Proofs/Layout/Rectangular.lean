import Spreadsheet.Proofs.Layout.Exploding

/-!
# Trees without gaps

When the gaps of a tree are replaced, no gap is left, the vectors of a frame are equally long, and the
cells that were there before still follow each other in their order.  A gap takes as much place along
the axis of its container as it is large, and it does not make a stack broader.
-/

namespace Spreadsheet

open Store

theorem Orientation.eq_extent {o : Orientation} {e : Extent} {a b : Nat} (along : o.along e = a)
    (across : o.across e = b) : e = o.extent a b := by
  subst along across
  cases o <;> rfl

namespace Store

variable {s t : Store} {o : Orientation} {e : Element} {l l' : List Element}

/-! ## The size of what stands for a gap -/

theorem lengthAlong_const {m : Nat} (each : ∀ x ∈ l, o.along (s.extent x) = m) :
    s.lengthAlong o l = l.length * m := by
  induction l with
  | nil => simp [lengthAlong]
  | cons x l ih =>
      rw [lengthAlong_cons, each x (by simp), ih fun y hy => each y (List.mem_cons_of_mem x hy),
        List.length_cons, Nat.succ_mul, Nat.add_comm]

theorem breadth_le_iff {n : Nat} : s.breadth o l ≤ n ↔ ∀ x ∈ l, o.across (s.extent x) ≤ n := by
  simp [breadth, foldl_max_le_iff]

theorem le_breadth {x : Element} (h : x ∈ l) : o.across (s.extent x) ≤ s.breadth o l :=
  breadth_le_iff.1 (le_refl _) x h

theorem breadth_const {m : Nat} (some : l ≠ []) (each : ∀ x ∈ l, o.across (s.extent x) = m) :
    s.breadth o l = m := by
  obtain ⟨x, hx⟩ := List.exists_mem_of_ne_nil l some
  exact le_antisymm (breadth_le_iff.2 fun y hy => (each y hy).le) (each x hx ▸ le_breadth hx)

/-- How far a container extends across its axis; a vector is never narrower than one place. -/
theorem Acyclic.across_extent (h : s.Acyclic) (ho : s.orientation? e = some o) :
    o.across (s.extent e) =
      max (s.breadth o (s.children e)) (asVector? e).isSome.toNat := by
  rw [h.extent_eq]
  cases e with
  | vector v =>
      cases ho
      simp [extentOver, stacked, breadth, asVector?, Function.comp_def]
  | frame f =>
      cases ho
      simp [extentOver, stacked, breadth, asVector?, Function.comp_def]
  | stack k =>
      cases ho
      simp [extentOver, stacked, breadth, asVector?, Function.comp_def]
  | _ => cases ho

theorem GapVector.extent {g : Gap} {n : Nat} {v : VectorId} (h : GapVector g o n s t v)
    (acyclic : t.Acyclic) : t.extent (.vector v) = o.extent n 1 := by
  have inside := h.children
  obtain ⟨-, _, -, is⟩ := h
  have axis : t.orientation? (.vector v) = some o := by rw [orientation?, is]
  have blank : t.pendingHeader (.vector v) = false := by rw [pendingHeader, is]; rfl
  have narrow : t.breadth o (t.children (.vector v)) ≤ 1 := by
    obtain ⟨cells, children, -, each⟩ := inside
    rw [children, breadth_le_iff]
    intro x hx
    obtain ⟨c, hc, rfl⟩ := List.mem_map.1 hx
    rw [extent_gapCell (each c hc).2]
    cases o <;> exact le_refl 1
  refine o.eq_extent ?_ ((acyclic.across_extent axis).trans (max_eq_right narrow))
  rw [acyclic.along_extent axis blank, inside.lengthAlong]

theorem GapVectors.lengthAlong {g : Gap} {n : Nat} (h : GapVectors g o n s t l)
    (acyclic : t.Acyclic) : t.lengthAlong o.cross l = g.size := by
  obtain ⟨vectors, rfl, count, each⟩ := h
  have one : ∀ x ∈ vectors.map Element.vector, o.cross.along (t.extent x) = 1 := by
    intro x hx
    obtain ⟨v, hv, rfl⟩ := List.mem_map.1 hx
    rw [(each v hv).extent acyclic]
    exact o.across_extent n 1
  rw [lengthAlong_const one, List.length_map, count, Nat.mul_one]

theorem GapBlock.extent {g : Gap} {n : Nat} {f : FrameId} (h : GapBlock g o n s t [.frame f])
    (acyclic : t.Acyclic) :
    t.extent (.frame f) = o.extent g.size (if g.size = 0 then 0 else n) := by
  have inside := h.children
  obtain ⟨_, same, -, _, -, is⟩ := h
  cases same
  have axis : t.orientation? (.frame f) = some o := by rw [orientation?, is]
  refine o.eq_extent ?_ ((acyclic.across_extent axis).trans (max_eq_left (Nat.zero_le _)) |>.trans ?_)
  · rw [acyclic.along_extent axis rfl]
    have length := inside.lengthAlong acyclic
    rwa [Orientation.cross_cross] at length
  · obtain ⟨vectors, children, count, each⟩ := inside
    rw [children]
    split
    case isTrue none =>
      rw [List.eq_nil_of_length_eq_zero (count.trans none)]
      rfl
    case isFalse some =>
      refine breadth_const (fun empty => some ?_) fun x hx => ?_
      · rw [List.map_eq_nil_iff] at empty
        rw [← count, empty, List.length_nil]
      · obtain ⟨v, hv, rfl⟩ := List.mem_map.1 hx
        rw [(each v hv).extent acyclic]
        exact o.cross.along_extent n 1

/-! ## The size of each container -/

/-- A stack is as long as its children with the gaps among them. -/
theorem Blocked.along_extent {k : StackId} (h : Blocked s t k) (acyclic : t.Acyclic)
    (axis : t.orientation? (.stack k) = s.orientation? (.stack k)) :
    (s.stack k).orientation.along (t.extent (.stack k)) =
      t.fullLength (s.stack k).orientation (s.children (.stack k)) := by
  rw [acyclic.along_extent axis rfl]
  refine Expands.lengthAlong_eq h fun g new fits => ?_
  obtain ⟨f, rfl, rest⟩ := fits
  have size := GapBlock.extent ⟨f, rfl, rest⟩ acyclic
  rw [lengthAlong_cons, size, Orientation.along_extent]
  rfl

/-- A stack is no broader than its children other than gaps, if these have any breadth. -/
theorem Blocked.across_extent {k : StackId} (h : Blocked s t k) (acyclic : t.Acyclic)
    (axis : t.orientation? (.stack k) = s.orientation? (.stack k))
    (broad : 0 < t.breadth (s.stack k).orientation (s.children (.stack k))) :
    (s.stack k).orientation.across (t.extent (.stack k)) =
      t.breadth (s.stack k).orientation (s.children (.stack k)) := by
  rw [acyclic.across_extent axis]
  refine (max_eq_left (Nat.zero_le _)).trans (le_antisymm ?_ ?_)
  · refine breadth_le_iff.2 fun x hx => ?_
    rcases Expands.mem_cases h hx with ⟨old, -⟩ | ⟨g, new, ⟨f, rfl, rest⟩, hx⟩
    · exact le_breadth old
    · rw [List.mem_singleton.1 hx, GapBlock.extent ⟨f, rfl, rest⟩ acyclic, Orientation.across_extent,
        max_eq_left broad]
      split <;> omega
  · refine breadth_le_iff.2 fun x hx => ?_
    by_cases gap : ∃ g, x = .gap g
    · obtain ⟨g, rfl⟩ := gap
      cases (s.stack k).orientation <;> exact Nat.zero_le _
    · exact le_breadth (Expands.mem_of_mem h hx fun g same => gap ⟨g, same⟩)

/-- A frame is as long as its vectors with the gaps among them. -/
theorem Levelled.along_extent {f : FrameId} (h : Levelled s t f) (acyclic : t.Acyclic)
    (axis : t.orientation? (.frame f) = s.orientation? (.frame f)) :
    (s.frame f).orientation.along (t.extent (.frame f)) =
      t.fullLength (s.frame f).orientation (s.children (.frame f)) := by
  rw [acyclic.along_extent axis rfl]
  refine h.expands.lengthAlong_eq fun g new fits => ?_
  have length := fits.lengthAlong acyclic
  rwa [Orientation.cross_cross] at length

/-- Whether a vector holds a cell, a header or a gap that is not empty. -/
def Bears (s : Store) (v : VectorId) : Prop :=
  (∃ c, .cell c ∈ s.children (.vector v)) ∨ (s.vector v).header.isSome = true ∨
    ∃ g : Gap, .gap g ∈ s.children (.vector v) ∧ 0 < g.size

theorem advance_le_fullLength {x : Element} (h : x ∈ l) : s.advance o x ≤ s.fullLength o l :=
  Number.le_total_of_mem (List.mem_map_of_mem h)

theorem WellFormed.one_le_advance_cell (wf : s.WellFormed) (o : Orientation) (c : CellId) :
    1 ≤ s.advance o (.cell c) := by
  have size := wf.merges c
  cases o
  · exact size.2
  · exact size.1

theorem Bears.one_le_naturalLength (wf : s.WellFormed) (regular : s.Regular) {v : VectorId}
    (h : s.Bears v) : 1 ≤ s.naturalLength v := by
  have cell : ∀ c, .cell c ∈ s.children (.vector v) → 1 ≤ s.naturalLength v := fun c below =>
    (wf.one_le_advance_cell _ c).trans ((advance_le_fullLength below).trans (Nat.le_add_right _ _))
  rcases h with ⟨c, below⟩ | header | ⟨g, below, large⟩
  · exact cell c below
  · cases inserted : (s.vector v).headerInserted with
    | true =>
        obtain ⟨c, first, -⟩ := regular.headFirst v inserted
        exact cell c (List.mem_of_mem_head? first)
    | false =>
        have pending : s.pendingHeader (.vector v) = true := by
          rw [pendingHeader, header, inserted]
          rfl
        rw [naturalLength, pending]
        exact Nat.le_add_left _ _
  · have size : 1 ≤ s.advance (s.vector v).orientation (.gap g) := large
    exact size.trans ((advance_le_fullLength below).trans (Nat.le_add_right _ _))

/-! ## Vectors -/

section

variable (wf : s.WellFormed) (regular : s.Regular) (wft : t.WellFormed)
  (intact : ∀ x, s.InStore x → Intact s t x)

include regular wft intact

theorem spanLength_padded {v : VectorId} (hv : s.InStore (.vector v)) {l filler : List Element}
    {g : Gap} {n : Nat} (children : t.children (.vector v) = l ++ filler)
    (spelled : Spelled s t v l) (filled : GapCells g n s t filler) :
    StoreM.spanLength t v = s.naturalLength v + n :=
  StoreM.spanLength_of_spelled wft regular (fun x hx => intact x (by
    rcases hx with rfl | hx
    · exact hv
    · exact regular.closed _ _ hx)) children spelled filled

/-- A vector that is in no frame is as long as it was with its gaps. -/
theorem spanLength_spelled {v : VectorId} (hv : s.InStore (.vector v))
    (spelled : Spelled s t v (t.children (.vector v))) :
    StoreM.spanLength t v = s.naturalLength v :=
  spanLength_padded regular wft intact (g := { size := 0 }) (n := 0) hv
    (List.append_nil _).symm spelled ⟨[], rfl, rfl, by simp⟩

/-- A vector of a frame is as long as the longest one. -/
theorem Levelled.spanLength {f : FrameId} (h : Levelled s t f) {v : VectorId}
    (hv : v ∈ s.frameVectors f) : StoreM.spanLength t v = s.depth f := by
  obtain ⟨l, filler, children, spelled, filled⟩ := h.filled v hv
  rw [spanLength_padded regular wft intact (regular.closed _ _ (mem_frameVectors.1 hv)) children
    spelled filled]
  exact Nat.add_sub_of_le (naturalLength_le_depth hv)

theorem Levelled.spanLength_eq {f : FrameId} (h : Levelled s t f) (deep : 1 ≤ s.depth f)
    {v : VectorId} (hv : v ∈ t.frameVectors f) : StoreM.spanLength t v = s.depth f := by
  rcases h.expands.mem_cases (mem_frameVectors.1 hv) with ⟨old, -⟩ | ⟨g, new, fits, hnew⟩
  · exact h.spanLength regular wft intact (mem_frameVectors.2 old)
  · obtain ⟨vectors, rfl, -, each⟩ := fits
    obtain ⟨w, hw, same⟩ := List.mem_map.1 hnew
    cases same
    rw [StoreM.spanLength_of_gapVector (each v hw) wft.acyclic]
    exact max_eq_left deep

end

/-! ## Cells -/

/-- Whether a cell was there before. -/
def wasThere (s : Store) (c : CellId) : Bool :=
  decide (s.InStore (.cell c))

theorem filter_leaves_made (acyclic : t.Acyclic) (made : ∀ z ∈ l, GapMade s t z) :
    (l.flatMap t.leaves).filter s.wasThere = [] := by
  refine List.filter_eq_nil_iff.2 fun c hc => ?_
  obtain ⟨z, hz, hc⟩ := List.mem_flatMap.1 hc
  simpa [wasThere] using ((made z hz).reach (acyclic.mem_leaves.1 hc)).novel.new

theorem Expands.filter_leaves (hs : s.Acyclic) (ht : t.Acyclic)
    (h : Expands (fun _ new => ∀ z ∈ new, GapMade s t z) l l')
    (each : ∀ child ∈ l, (t.leaves child).filter s.wasThere = s.leaves child) :
    (l'.flatMap t.leaves).filter s.wasThere = l.flatMap s.leaves := by
  induction h with
  | nil => rfl
  | @keep child l l' _ _ ih =>
      rw [List.flatMap_cons, List.filter_append, List.flatMap_cons, each child (by simp),
        ih fun x hx => each x (List.mem_cons_of_mem child hx)]
  | @fill g new l l' fits _ ih =>
      have gap : s.leaves (.gap g) = [] := by rw [hs.leaves_eq]; rfl
      rw [List.flatMap_append, List.filter_append, filter_leaves_made ht fits, List.flatMap_cons, gap,
        ih fun x hx => each x (List.mem_cons_of_mem _ hx)]

/-- The cells of a tree that are not new are those that were there before, in their order. -/
theorem Gathers.leaves (h : Gathers s t e) (wf : s.WellFormed) (acyclic : t.Acyclic)
    (he : s.InStore e) : (t.leaves e).filter s.wasThere = s.leaves e := by
  induction e using wf.acyclic.induction with
  | step e ih =>
      obtain ⟨l, filler, children, expands, made⟩ := h e .root
      have own : (asCell? e).toList.filter s.wasThere = (asCell? e).toList := by
        cases e with
        | cell c =>
            refine List.filter_eq_self.2 fun d hd => ?_
            rw [List.mem_singleton.1 hd]
            exact decide_eq_true he
        | _ => rfl
      have below := expands.filter_leaves wf.acyclic acyclic fun child hchild =>
        ih child hchild (h.below (reach_of_child hchild)) (wf.closed e child hchild)
      rw [acyclic.leaves_eq, wf.acyclic.leaves_eq, children, List.flatMap_append,
        List.filter_append, List.filter_append, own, below, filter_leaves_made acyclic made,
        List.append_nil]

theorem map_asCell?_sublist (l : List Element) :
    ((l.filterMap asCell?).map Node.cell).Sublist (l.filterMap Element.node?) := by
  induction l with
  | nil => exact .slnil
  | cons e l ih =>
      cases e with
      | cell c => exact ih.cons_cons _
      | gap g => exact ih
      | _ => exact ih.cons _

theorem Forest.nodup_leaves (h : s.Forest [e]) : (s.leaves e).Nodup := by
  rw [Forest, nodesUnder, List.flatMap_singleton] at h
  exact ((map_asCell?_sublist (s.subtree e)).nodup h).of_map Node.cell

/-! ## The whole tree -/

/-- What replacing the gaps of a tree achieves. -/
structure FilledOut (s t : Store) (e : Element) : Prop where
  gapFree : ∀ x, Reach t e x → GapFree t x
  /-- A frame that was there before may hold nothing but empty vectors and gaps. -/
  level : ∀ f, Reach t e (.frame f) →
    (s.InStore (.frame f) → ∃ v ∈ s.frameVectors f, s.Bears v) →
    ∀ v ∈ t.frameVectors f, ∀ w ∈ t.frameVectors f,
      StoreM.spanLength t v = StoreM.spanLength t w
  leaves : (t.leaves e).filter s.wasThere = s.leaves e
  once : ∀ c ∈ s.leaves e, (t.leaves e).count c = 1
  /-- Frames and stacks are as long as their children with the gaps among them. -/
  along : ∀ x o, Reach s e x → asVector? x = none → s.orientation? x = some o →
    o.along (t.extent x) = t.fullLength o (s.children x)
  vector : ∀ v, Reach s e (.vector v) →
    (∀ f, Reach s e (.frame f) → .vector v ∉ s.children (.frame f)) →
    StoreM.spanLength t v = s.naturalLength v
  /-- What a vector in a frame lacks is filled up. -/
  vectorInFrame : ∀ f, Reach s e (.frame f) → ∀ v ∈ s.frameVectors f,
    StoreM.spanLength t v = s.naturalLength v + (s.depth f - s.naturalLength v)
  across : ∀ k o, Reach s e (.stack k) → s.orientation? (.stack k) = some o →
    0 < t.breadth o (s.children (.stack k)) →
    o.across (t.extent (.stack k)) = t.breadth o (s.children (.stack k))

/-- All frames of the tree are old ones or stand for gaps. -/
theorem Exploded.spanLength_eq (h : Exploded s t e) (wf : s.WellFormed) (regular : s.Regular)
    (he : s.InStore e) (wft : t.WellFormed)
    (intact : ∀ x, s.InStore x → Intact s t x) {f : FrameId}
    (reach : Reach t e (.frame f))
    (bears : s.InStore (.frame f) → ∃ v ∈ s.frameVectors f, s.Bears v) :
    ∃ n, ∀ v ∈ t.frameVectors f, StoreM.spanLength t v = n := by
  rcases h.gathers.reach_cases wf.acyclic reach with old | made
  · obtain ⟨v, hv, bears⟩ := bears (wf.inStore_of_reach he old)
    have deep := (bears.one_le_naturalLength wf regular).trans (naturalLength_le_depth hv)
    exact ⟨s.depth f, fun w hw => (h.frame f old).spanLength_eq regular wft intact deep hw⟩
  · cases made with
    | @frame g o n f is =>
        refine ⟨n, fun v hv => ?_⟩
        obtain ⟨vectors, children, -, each⟩ := is.children
        have below := mem_frameVectors.1 hv
        rw [children] at below
        obtain ⟨w, hw, same⟩ := List.mem_map.1 below
        cases same
        exact StoreM.spanLength_of_gapVector (each v hw) wft.acyclic

end Store

namespace StoreM

variable {s t : Store} {e : Element}

/-- A stack of a frame with a gap and columns of unequal length, a gap, and a row with a gap. -/
def gappyStack : Store where
  cells := ⟨#[{}, { merge := ⟨2, 1⟩ }, {}, {}, {}]⟩
  vectors := ⟨#[
    { orientation := .vertical, children := [.cell ⟨0⟩, .cell ⟨1⟩], header := some "Rent" },
    { orientation := .vertical, children := [.gap { size := 1 }, .cell ⟨2⟩] },
    { orientation := .horizontal, children := [.cell ⟨3⟩, .gap { size := 4 }, .cell ⟨4⟩] }]⟩
  frames := ⟨#[{ orientation := .horizontal,
                 children := [.vector ⟨0⟩, .gap { size := 1 }, .vector ⟨1⟩] }]⟩
  groups := ⟨#[{ orientation := .vertical,
                 children := [.frame ⟨0⟩, .gap { size := 2 }, .vector ⟨2⟩] }]⟩

theorem gappyStack_wellFormed : gappyStack.WellFormed :=
  wellFormed_of_falling
    (fun | .stack _ => 3 | .frame _ => 2 | .vector _ => 1 | _ => 0) (by decide) (by decide)

end StoreM

end Spreadsheet
