import Mathlib
import Spreadsheet.Tree

/-!
# What lies below an element

The tree under an element as a relation, without a bound on its depth.  When no container lies below
itself, the depth of every tree is bounded by the number of containers, so the walks that are run
with that bound see the whole tree, and each of them satisfies the equation that defines it without
a bound.
-/

namespace Spreadsheet.Store

variable {s : Store}

/-! ## Below -/

/-- Whether an element lies in the tree under another, which is in it itself. -/
inductive Reach (s : Store) (root : Element) : Element → Prop
  | root : Reach s root root
  | child {parent child : Element} (above : Reach s root parent)
      (below : child ∈ s.children parent) : Reach s root child

theorem Reach.trans {a b c : Element} (first : Reach s a b) (second : Reach s b c) :
    Reach s a c := by
  induction second with
  | root => exact first
  | child _ below ih => exact .child ih below

theorem reach_of_child {parent child : Element} (h : child ∈ s.children parent) :
    Reach s parent child :=
  .child .root h

theorem Reach.eq_or_child {a b : Element} (h : Reach s a b) :
    b = a ∨ ∃ child ∈ s.children a, Reach s child b := by
  induction h with
  | root => exact .inl rfl
  | @child parent child above below ih =>
      rcases ih with rfl | ⟨first, hfirst, h⟩
      · exact .inr ⟨child, below, .root⟩
      · exact .inr ⟨first, hfirst, .child h below⟩

/-- Whether no container lies below itself. -/
def Acyclic (s : Store) : Prop :=
  ∀ parent child, child ∈ s.children parent → ¬Reach s child parent

/-! ## Nodes of the store -/

/-- Whether an element is a node of the store; gaps and producers always count as such. -/
def InStore (s : Store) : Element → Prop
  | .cell c => c.index < s.cells.size
  | .vector v => v.index < s.vectors.size
  | .frame f => f.index < s.frames.size
  | .stack k => k.index < s.groups.size
  | .gap _ | .expression _ | .call _ => True

theorem get_eq_default {α : Type} [Inhabited α] {t : Table α} {i : Nat} (h : t.size ≤ i) :
    t.get i = default := by
  rw [Table.size] at h
  simp [Table.get, h]

theorem isContainer_of_child {e child : Element} (h : child ∈ s.children e) :
    e.isContainer = true := by
  cases e with
  | vector v => rfl
  | frame f => rfl
  | stack k => rfl
  | cell c => cases h
  | gap g => cases h
  | expression x => cases h
  | call c => cases h

theorem children_of_not_inStore {e : Element} (h : ¬s.InStore e) : s.children e = [] := by
  cases e with
  | vector v => rw [children, vector, get_eq_default (Nat.le_of_not_lt h)]; rfl
  | frame f => rw [children, frame, get_eq_default (Nat.le_of_not_lt h)]; rfl
  | stack k => rw [children, stack, get_eq_default (Nat.le_of_not_lt h)]; rfl
  | cell c => rfl
  | gap g => rfl
  | expression x => rfl
  | call c => rfl

theorem inStore_of_child {e child : Element} (h : child ∈ s.children e) : s.InStore e := by
  by_contra outside
  rw [children_of_not_inStore outside] at h
  cases h

/-! ## Depth -/

/-- All containers. -/
def containers (s : Store) : List Element :=
  (List.range s.vectors.size).map (.vector ⟨·⟩) ++ (List.range s.frames.size).map (.frame ⟨·⟩)
    ++ (List.range s.groups.size).map (.stack ⟨·⟩)

theorem length_containers (s : Store) : s.containers.length + 1 = s.depthBound := by
  simp only [containers, depthBound, List.length_append, List.length_map, List.length_range]

theorem mem_containers {e child : Element} (h : child ∈ s.children e) : e ∈ s.containers := by
  have inside := inStore_of_child h
  simp only [containers, List.mem_append, List.mem_map, List.mem_range]
  cases e with
  | vector v => exact .inl (.inl ⟨v.index, inside, rfl⟩)
  | frame f => exact .inl (.inr ⟨f.index, inside, rfl⟩)
  | stack k => exact .inr ⟨k.index, inside, rfl⟩
  | cell c => cases h
  | gap g => cases h
  | expression x => cases h
  | call c => cases h

private theorem countP_lt_countP {α : Type} {p q : α → Bool} {l : List α}
    (imp : ∀ a ∈ l, p a = true → q a = true) {a : α} (ha : a ∈ l) (hq : q a = true)
    (hp : p a = false) : l.countP p < l.countP q := by
  induction l with
  | nil => cases ha
  | cons b l ih =>
      have rest := List.countP_mono_left fun x hx => imp x (List.mem_cons_of_mem b hx)
      rw [List.countP_cons, List.countP_cons]
      rcases List.mem_cons.1 ha with rfl | ha
      · simp only [hp, hq, Bool.false_eq_true, if_false, if_true]
        omega
      · have inner := ih (fun x hx => imp x (List.mem_cons_of_mem b hx)) ha
        have here := imp b (by simp)
        cases hpb : p b
        · simp only [Bool.false_eq_true, if_false]
          omega
        · simp only [here hpb, if_true]
          omega

/-- A rank that falls from each container to its children and is within the bound of the walks. -/
structure IsRank (s : Store) (rank : Element → Nat) : Prop where
  falls : ∀ parent child, child ∈ s.children parent → rank child < rank parent
  positive : ∀ e, 0 < rank e
  bounded : ∀ e, rank e ≤ s.depthBound

open Classical in
theorem Acyclic.exists_rank (h : s.Acyclic) : ∃ rank, s.IsRank rank := by
  refine ⟨fun e => s.containers.countP (fun c => decide (Reach s e c)) + 1, ?_, ?_, ?_⟩
  · intro parent child below
    have fewer : s.containers.countP (fun c => decide (Reach s child c)) <
        s.containers.countP (fun c => decide (Reach s parent c)) := by
      refine countP_lt_countP ?_ (mem_containers below) (by simpa using Reach.root) ?_
      · intro c _ hc
        simp only [decide_eq_true_eq] at hc ⊢
        exact (reach_of_child below).trans hc
      · simpa using h parent child below
    omega
  · intro e
    omega
  · intro e
    have := List.countP_le_length (p := fun c => decide (Reach s e c)) (l := s.containers)
    have := s.length_containers
    omega

/-- Induction from the leaves of a tree upwards. -/
theorem Acyclic.induction (h : s.Acyclic) {P : Element → Prop}
    (step : ∀ e, (∀ child ∈ s.children e, P child) → P e) (e : Element) : P e := by
  obtain ⟨rank, isRank⟩ := h.exists_rank
  induction hn : rank e using Nat.strongRecOn generalizing e with
  | ind n ih =>
      refine step e fun child below => ih (rank child) ?_ child rfl
      have := isRank.falls e child below
      omega

/-! ## Ways down -/

theorem mem_walk_self (s : Store) (fuel : Nat) (e : Element) : e ∈ s.walk fuel e := by
  cases fuel <;> simp [walk]

theorem reach_of_mem_walk {fuel : Nat} {a b : Element} (h : b ∈ s.walk fuel a) : Reach s a b := by
  induction fuel generalizing a with
  | zero =>
      obtain rfl := List.mem_singleton.1 h
      exact .root
  | succ fuel ih =>
      rw [walk, List.mem_cons, List.mem_flatMap] at h
      rcases h with rfl | ⟨child, below, h⟩
      · exact .root
      · exact (reach_of_child below).trans (ih h)

/-- Whether elements follow one another down a tree. -/
def IsWay (s : Store) (way : List Element) : Prop :=
  way.IsChain fun parent child => child ∈ s.children parent

theorem IsWay.mem_walk {way : List Element} {a b : Element} {fuel : Nat} (h : s.IsWay (a :: way))
    (last : (a :: way).getLast? = some b) (enough : way.length ≤ fuel) : b ∈ s.walk fuel a := by
  induction way generalizing a fuel with
  | nil =>
      cases last
      exact mem_walk_self s fuel a
  | cons child way ih =>
      obtain ⟨below, rest⟩ := List.isChain_cons_cons.1 h
      obtain ⟨fuel, rfl⟩ : ∃ less, fuel = less + 1 := ⟨fuel - 1, by simp at enough; omega⟩
      rw [walk, List.mem_cons, List.mem_flatMap]
      rw [List.getLast?_cons_cons] at last
      exact .inr ⟨child, below, ih rest last (by simpa using enough)⟩

theorem IsWay.mem_containers {way : List Element} (h : s.IsWay way) {e : Element}
    (he : e ∈ way.dropLast) : e ∈ s.containers := by
  induction way with
  | nil => cases he
  | cons first way ih =>
      cases way with
      | nil => cases he
      | cons second way =>
          obtain ⟨below, rest⟩ := List.isChain_cons_cons.1 h
          rcases List.mem_cons.1 he with rfl | he
          · exact Store.mem_containers below
          · exact ih rest he

/-- A way on which no element is met twice is within the bound of the walks. -/
theorem IsWay.length_le {way : List Element} {a : Element} (h : s.IsWay (a :: way))
    (nodup : (a :: way).Nodup) : way.length ≤ s.depthBound := by
  have parents := (nodup.sublist (List.dropLast_sublist _)).subperm fun e he => h.mem_containers he
  have := parents.length_le
  have := s.length_containers
  rw [List.length_dropLast, List.length_cons] at *
  omega

theorem Reach.exists_way {a b : Element} (h : Reach s a b) :
    ∃ way, s.IsWay (a :: way) ∧ (a :: way).Nodup ∧ (a :: way).getLast? = some b := by
  have steps : Relation.ReflTransGen (fun parent child => child ∈ s.children parent) a b := by
    induction h with
    | root => exact .refl
    | child _ below ih => exact ih.tail below
  clear h
  induction steps using Relation.ReflTransGen.head_induction_on with
  | refl => exact ⟨[], .singleton _, List.nodup_singleton _, rfl⟩
  | @head a child below _ ih =>
      obtain ⟨way, isWay, nodup, last⟩ := ih
      by_cases again : a ∈ child :: way
      · -- The way goes through the element itself: what comes before that is left out.
        obtain ⟨front, back, split⟩ := List.append_of_mem again
        rw [split] at isWay nodup last
        refine ⟨back, (List.isChain_append.1 isWay).2.1, (List.nodup_append.1 nodup).2.1, ?_⟩
        rw [List.getLast?_append_of_ne_nil _ (by simp)] at last
        exact last
      · refine ⟨child :: way, isWay.cons_cons below, List.nodup_cons.2 ⟨again, nodup⟩, ?_⟩
        rwa [List.getLast?_cons_cons]

/-- A subtree holds whatever lies below its root, circles or not. -/
theorem mem_subtree {a b : Element} : b ∈ s.subtree a ↔ Reach s a b := by
  refine ⟨reach_of_mem_walk, fun h => ?_⟩
  obtain ⟨way, isWay, nodup, last⟩ := h.exists_way
  exact isWay.mem_walk last (isWay.length_le nodup)

theorem isPending_eq_false_iff {e : Element} :
    s.isPending e = false ↔ ∀ x, Reach s e x → isProducer x = false := by
  simp only [isPending, List.any_eq_false, mem_subtree, Bool.not_eq_true]

/-! ## Walks see the whole tree -/

section Bounds

variable {rank : Element → Nat}

theorem IsRank.child_le (h : s.IsRank rank) {e child : Element} (below : child ∈ s.children e)
    {fuel : Nat} (enough : rank e ≤ fuel + 1) : rank child ≤ fuel := by
  have := h.falls e child below
  omega

theorem IsRank.walk_eq (h : s.IsRank rank) {e : Element} {fuel more : Nat}
    (enough : rank e ≤ fuel) (enough' : rank e ≤ more) : s.walk fuel e = s.walk more e := by
  induction fuel generalizing e more with
  | zero =>
      have := h.positive e
      omega
  | succ fuel ih =>
      cases more with
      | zero =>
          have := h.positive e
          omega
      | succ more =>
          rw [walk, walk]
          congr 1
          refine List.flatMap_congr fun child below => ?_
          exact ih (h.child_le below enough) (h.child_le below enough')

theorem IsRank.extentWithin_eq (h : s.IsRank rank) {e : Element} {fuel more : Nat}
    (enough : rank e ≤ fuel) (enough' : rank e ≤ more) :
    s.extentWithin fuel e = s.extentWithin more e := by
  induction fuel generalizing e more with
  | zero =>
      have := h.positive e
      omega
  | succ fuel ih =>
      cases more with
      | zero =>
          have := h.positive e
          omega
      | succ more =>
          have same : (s.children e).map (s.extentWithin fuel) =
              (s.children e).map (s.extentWithin more) := by
            refine List.map_congr_left fun child below => ?_
            exact ih (h.child_le below enough) (h.child_le below enough')
          cases e with
          | vector v =>
              rw [children] at same
              simp only [extentWithin, same]
          | frame f =>
              rw [children] at same
              simp only [extentWithin, same]
          | stack k =>
              rw [children] at same
              simp only [extentWithin, same]
          | _ => simp only [extentWithin]

end Bounds

theorem Acyclic.subtree_eq (h : s.Acyclic) (e : Element) :
    s.subtree e = e :: (s.children e).flatMap s.subtree := by
  obtain ⟨rank, isRank⟩ := h.exists_rank
  have enough := isRank.bounded e
  rw [subtree, isRank.walk_eq enough (Nat.le_succ_of_le enough), walk]
  rfl

theorem Acyclic.mem_subtree (_ : s.Acyclic) {a b : Element} : b ∈ s.subtree a ↔ Reach s a b :=
  Store.mem_subtree

theorem Acyclic.leaves_eq (h : s.Acyclic) (e : Element) :
    s.leaves e = (asCell? e).toList ++ (s.children e).flatMap s.leaves := by
  rw [leaves, h.subtree_eq, List.filterMap_cons]
  have below : ((s.children e).flatMap s.subtree).filterMap asCell? =
      (s.children e).flatMap s.leaves := by
    rw [List.filterMap_flatMap]
    rfl
  rw [below]
  cases asCell? e <;> rfl

theorem asCell?_eq_some {e : Element} {c : CellId} : asCell? e = some c ↔ e = .cell c := by
  cases e <;> simp [asCell?]

theorem asVector?_eq_some {e : Element} {v : VectorId} : asVector? e = some v ↔ e = .vector v := by
  cases e <;> simp [asVector?]

theorem mem_frameVectors {f : FrameId} {v : VectorId} :
    v ∈ s.frameVectors f ↔ .vector v ∈ s.children (.frame f) := by
  simp [frameVectors, asVector?_eq_some, children]

theorem Acyclic.mem_leaves (h : s.Acyclic) {e : Element} {c : CellId} :
    c ∈ s.leaves e ↔ Reach s e (.cell c) := by
  simp [leaves, h.mem_subtree, asCell?_eq_some]

/-! ## Extents -/

/-- Whether a vector has a header that is not a cell yet. -/
def pendingHeader (s : Store) : Element → Bool
  | .vector v => (s.vector v).header.isSome && !(s.vector v).headerInserted
  | _ => false

/-- The extent of an element in terms of the extents of its children. -/
def extentOver (s : Store) (below : List Extent) : Element → Extent
  | .cell c => (s.cell c).merge
  | .vector v =>
    let o := (s.vector v).orientation
    let inner := stacked o below
    o.extent (o.along inner + (s.pendingHeader (.vector v)).toNat) (max (o.across inner) 1)
  | .frame f => stacked (s.frame f).orientation below
  | .stack k => stacked (s.stack k).orientation below
  | .gap _ | .expression _ | .call _ => ⟨0, 0⟩

theorem Acyclic.extent_eq (h : s.Acyclic) (e : Element) :
    s.extent e = s.extentOver ((s.children e).map s.extent) e := by
  obtain ⟨rank, isRank⟩ := h.exists_rank
  have enough := isRank.bounded e
  rw [extent, isRank.extentWithin_eq enough (Nat.le_succ_of_le enough)]
  cases e <;> rfl

end Spreadsheet.Store
