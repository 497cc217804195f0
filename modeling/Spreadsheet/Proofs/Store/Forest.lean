import Spreadsheet.Proofs.Store.Evolution

/-!
# Trees in which no node occurs twice

Nodes are shared, so one may stand at several places of a layout.  The trees under some elements are a
forest if none does.  They stay one where a child gives way to new elements that are a forest
themselves.
-/

namespace Spreadsheet.Store

variable {s t : Store} {l l' roots : List Element}

/-! ## Nodes -/

/-- The nodes of the trees under some elements, in order and with repeats. -/
def nodesUnder (s : Store) (l : List Element) : List Node :=
  (l.flatMap s.subtree).filterMap Element.node?

/-- Whether no node occurs twice in the trees under some elements. -/
def Forest (s : Store) (l : List Element) : Prop :=
  (s.nodesUnder l).Nodup

instance (s : Store) (l : List Element) : Decidable (s.Forest l) :=
  inferInstanceAs (Decidable (List.Nodup _))

theorem nodesUnder_append (s : Store) (l l' : List Element) :
    s.nodesUnder (l ++ l') = s.nodesUnder l ++ s.nodesUnder l' := by
  rw [nodesUnder, List.flatMap_append, List.filterMap_append]
  rfl

theorem nodesUnder_cons (s : Store) (e : Element) (l : List Element) :
    s.nodesUnder (e :: l) = s.nodesUnder [e] ++ s.nodesUnder l :=
  s.nodesUnder_append [e] l

theorem Acyclic.nodesUnder_singleton (h : s.Acyclic) (e : Element) :
    s.nodesUnder [e] = e.node?.toList ++ s.nodesUnder (s.children e) := by
  rw [nodesUnder, nodesUnder, List.flatMap_singleton, h.subtree_eq, List.filterMap_cons]
  cases e.node? <;> rfl

theorem element_of_node? {e : Element} {n : Node} (h : e.node? = some n) : n.element = e := by
  cases e <;> cases h <;> rfl

theorem Acyclic.mem_nodesUnder (h : s.Acyclic) {n : Node} :
    n ∈ s.nodesUnder l ↔ ∃ e ∈ l, Reach s e n.element := by
  simp only [nodesUnder, List.mem_filterMap, List.mem_flatMap, h.mem_subtree]
  constructor
  · rintro ⟨x, ⟨e, he, reach⟩, node⟩
    rw [← element_of_node? node] at reach
    exact ⟨e, he, reach⟩
  · rintro ⟨e, he, reach⟩
    exact ⟨n.element, ⟨e, he, reach⟩, n.node?_element⟩

/-- A tree is the same in two stores that agree on the children of all that is in it. -/
theorem subtree_congr (hs : s.Acyclic) (ht : t.Acyclic) {e : Element}
    (same : ∀ x, Reach s e x → t.children x = s.children x) : t.subtree e = s.subtree e := by
  induction e using hs.induction with
  | step e ih =>
      rw [hs.subtree_eq, ht.subtree_eq, same e .root]
      congr 1
      apply List.flatMap_congr
      intro child below
      exact ih child below fun x reach => same x ((reach_of_child below).trans reach)

theorem nodesUnder_congr (hs : s.Acyclic) (ht : t.Acyclic)
    (same : ∀ e ∈ l, ∀ x, Reach s e x → t.children x = s.children x) :
    t.nodesUnder l = s.nodesUnder l := by
  rw [nodesUnder, nodesUnder]
  congr 1
  apply List.flatMap_congr
  exact fun e he => subtree_congr hs ht (same e he)

/-! ## Forests -/

theorem Forest.nil (s : Store) : s.Forest [] :=
  List.nodup_nil

theorem Forest.sublist (h : s.Forest l) (part : l'.Sublist l) : s.Forest l' :=
  List.Nodup.sublist ((part.flatMap s.subtree).filterMap Element.node?) h

theorem Forest.children (acyclic : s.Acyclic) {e : Element} (h : s.Forest [e]) :
    s.Forest (s.children e) := by
  rw [Forest, acyclic.nodesUnder_singleton] at h
  exact h.of_append_right

/-- A forest stays one as long as the children of all that was there stay the same. -/
theorem Forest.later (h : s.Forest l) (wf : s.WellFormed) (acyclic : t.Acyclic)
    (inside : ∀ e ∈ l, s.InStore e) (same : ∀ e, s.InStore e → t.children e = s.children e) :
    t.Forest l := by
  have nodes : t.nodesUnder l = s.nodesUnder l := by
    apply nodesUnder_congr wf.acyclic acyclic
    exact fun e he x reach => same x (wf.inStore_of_reach (inside e he) reach)
  rw [Forest, nodes]
  exact h

/-- A forest together with one that is new. -/
theorem Forest.append (acyclic : t.Acyclic) (h : t.Forest l) (h' : t.Forest l')
    (old : ∀ e ∈ l, ∀ x, Reach t e x → s.InStore x)
    (new : ∀ e ∈ l', ∀ x, Reach t e x → ¬s.InStore x) : t.Forest (l ++ l') := by
  rw [Forest, nodesUnder_append]
  apply List.Nodup.append h h'
  intro n hn hn'
  obtain ⟨e, he, reach⟩ := acyclic.mem_nodesUnder.1 hn
  obtain ⟨e', he', reach'⟩ := acyclic.mem_nodesUnder.1 hn'
  exact new e' he' _ reach' (old e he _ reach)

/-- A new container with a forest as children. -/
theorem Forest.container (acyclic : t.Acyclic) {e : Element} (h : t.Forest (t.children e)) :
    t.Forest [e] := by
  rw [Forest, acyclic.nodesUnder_singleton]
  cases node : e.node? with
  | none => exact h
  | some n =>
      refine List.nodup_cons.2 ⟨fun below => ?_, h⟩
      obtain ⟨child, below, reach⟩ := acyclic.mem_nodesUnder.1 below
      rw [element_of_node? node] at reach
      exact acyclic e child below reach

/-! ## New children -/

section

variable {container child : Element} {before rest made : List Element} {news : Node → Nat}

/-- Where a container gets new children with some nodes more below them, a node occurs as often as
before, and once more for each time that the container and the node among these occur. -/
theorem count_nodesUnder_le (hs : s.Acyclic) (ht : t.Acyclic) {c n : Node}
    (closed : ∀ e z, z ∈ s.children e → s.InStore z) (is : container.node? = some c)
    (more : (t.nodesUnder (t.children container)).count n ≤
      (t.nodesUnder (s.children container)).count n + news n)
    (others : ∀ e, s.InStore e → e ≠ container → t.children e = s.children e)
    (inside : ∀ e ∈ l, s.InStore e) :
    (t.nodesUnder l).count n ≤
      (s.nodesUnder l).count n + (s.nodesUnder l).count c * news n := by
  -- Over a list of elements, both sides are sums.
  have sums : ∀ l : List Element, (∀ e ∈ l, (t.nodesUnder [e]).count n ≤
      (s.nodesUnder [e]).count n + (s.nodesUnder [e]).count c * news n) →
      (t.nodesUnder l).count n ≤
        (s.nodesUnder l).count n + (s.nodesUnder l).count c * news n := by
    intro l each
    induction l with
    | nil => exact Nat.zero_le _
    | cons e l ih =>
        have here := each e (by simp)
        have there := ih fun x hx => each x (List.mem_cons_of_mem e hx)
        simp only [nodesUnder_cons _ e l, List.count_append, Nat.add_mul]
        omega
  suffices ∀ e, s.InStore e → (t.nodesUnder [e]).count n ≤
      (s.nodesUnder [e]).count n + (s.nodesUnder [e]).count c * news n from
    sums l fun e he => this e (inside e he)
  intro e
  induction e using hs.induction with
  | step e ih =>
      intro old
      have parts := sums (s.children e) fun z hz => ih z hz (closed e z hz)
      rw [ht.nodesUnder_singleton, hs.nodesUnder_singleton]
      simp only [List.count_append, Nat.add_mul]
      by_cases here : e = container
      · subst here
        have once : (Option.toList (some c)).count c = 1 := by simp
        rw [is, once]
        omega
      · rw [others e old here]
        omega

/-- The trees under some roots stay a forest where a container gets new children that bring every
node at most once, and none that was below the roots before. -/
theorem Forest.regroup (h : s.Forest roots) (news : Node → Nat) (wf : s.WellFormed) (acyclic : t.Acyclic)
    (inside : ∀ root ∈ roots, s.InStore root) (hc : container.isContainer = true)
    (more : ∀ n, (t.nodesUnder (t.children container)).count n ≤
      (t.nodesUnder (s.children container)).count n + news n)
    (others : ∀ e, s.InStore e → e ≠ container → t.children e = s.children e)
    (once : ∀ n, news n ≤ 1) (new : ∀ n ∈ s.nodesUnder roots, news n = 0) : t.Forest roots := by
  obtain ⟨c, is⟩ : ∃ c, container.node? = some c := by
    cases container <;> first | exact ⟨_, rfl⟩ | cases hc
  refine List.nodup_iff_count_le_one.2 fun n => ?_
  have grown := count_nodesUnder_le (n := n) wf.acyclic acyclic wf.closed is (more n) others inside
  have single := List.nodup_iff_count_le_one.1 h
  by_cases old : n ∈ s.nodesUnder roots
  · rw [new n old, Nat.mul_zero] at grown
    exact grown.trans (single n)
  · rw [List.count_eq_zero.2 old, Nat.zero_add] at grown
    exact grown.trans (Nat.mul_le_mul (single c) (once n))

/-- The trees under some roots stay a forest where a child gives way to a new forest. -/
theorem Forest.splice (h : s.Forest roots) (wf : s.WellFormed) (acyclic : t.Acyclic)
    (inside : ∀ root ∈ roots, s.InStore root)
    (split : s.children container = before ++ child :: rest)
    (placed : t.children container = before ++ made ++ rest)
    (others : ∀ e, s.InStore e → e ≠ container → t.children e = s.children e)
    (forest : t.Forest made) (new : ∀ z ∈ made, ∀ x, Reach t z x → ¬s.InStore x) :
    t.Forest roots := by
  have hc := isContainer_of_child (show child ∈ s.children container by simp [split])
  refine h.regroup (t.nodesUnder made).count wf acyclic inside hc (fun n => ?_) others
    (List.nodup_iff_count_le_one.1 forest) fun n old => ?_
  · rw [split, placed]
    simp only [nodesUnder_append, nodesUnder_cons _ child rest, List.count_append]
    omega
  · obtain ⟨root, hroot, reach⟩ := wf.acyclic.mem_nodesUnder.1 old
    rw [List.count_eq_zero, acyclic.mem_nodesUnder]
    rintro ⟨z, hz, reach'⟩
    exact new z hz _ reach' (wf.inStore_of_reach (inside root hroot) reach)

end

end Spreadsheet.Store
