import Mathlib
import Spreadsheet.Build
import Spreadsheet.Proofs.Store.Reach

/-!
# What stays in use

A set of nodes that are held from outside or by one another stays in use as long as all of it is.
Only nodes of the store ever go out of use, and those that nothing in use holds do.  What is held by
something that stays in use stays in use.
-/

namespace Spreadsheet

open Store

/-- Whether a set of nodes has room for a node. -/
def Marks.HasRoom (m : Marks) : Node → Prop
  | .cell c => c.index < m.cells.size
  | .vector v => v.index < m.vectors.size
  | .frame f => f.index < m.frames.size
  | .stack k => k.index < m.groups.size
  | .expression e => e.index < m.expressions.size
  | .call c => c.index < m.calls.size

/-- Whether a node is one of a store. -/
def Store.Has (s : Store) : Node → Prop
  | .cell c => c.index < s.cells.size
  | .vector v => v.index < s.vectors.size
  | .frame f => f.index < s.frames.size
  | .stack k => k.index < s.groups.size
  | .expression e => e.index < s.expressions.size
  | .call c => c.index < s.calls.size

namespace Marks

variable {m : Marks} {n k : Node}

theorem get_update_true {t : Table Bool} {i j : Nat} (h : t.get j = true) :
    (t.update i fun _ => true).get j = true := by
  by_cases same : i = j
  · subst same
    by_cases inside : i < t.size
    · exact Table.get_update_self t _ inside
    · rw [Table.size] at inside
      simp [Table.get, inside] at h
  · rwa [Table.get_update_of_ne t _ same]

theorem contains_insert (h : m.contains n = true) : (m.insert k).contains n = true := by
  cases k <;> cases n <;> first | exact h | exact get_update_true h

theorem contains_insert_self (h : m.HasRoom n) : (m.insert n).contains n = true := by
  cases n <;> exact Table.get_update_self _ _ h

theorem hasRoom_insert : (m.insert k).HasRoom n ↔ m.HasRoom n := by
  cases k <;> cases n <;> simp [HasRoom, insert]

theorem contains_foldl {l : List Node} (h : m.contains n = true ∨ n ∈ l) (room : m.HasRoom n) :
    (l.foldl insert m).contains n = true := by
  induction l generalizing m with
  | nil => simpa using h
  | cons k rest ih =>
      refine ih ?_ (hasRoom_insert.2 room)
      rcases h with old | new
      · exact .inl (contains_insert old)
      · rcases List.mem_cons.1 new with rfl | later
        · exact .inl (contains_insert_self room)
        · exact .inr later

theorem contains_insert_cases (h : (m.insert k).contains n = true) :
    m.contains n = true ∨ n = k := by
  by_cases same : n = k
  · exact .inr same
  · left
    rcases k with ⟨⟨i⟩⟩ | ⟨⟨i⟩⟩ | ⟨⟨i⟩⟩ | ⟨⟨i⟩⟩ | ⟨⟨i⟩⟩ | ⟨⟨i⟩⟩ <;>
    rcases n with ⟨⟨j⟩⟩ | ⟨⟨j⟩⟩ | ⟨⟨j⟩⟩ | ⟨⟨j⟩⟩ | ⟨⟨j⟩⟩ | ⟨⟨j⟩⟩
      <;> first
        | exact h
        | exact (Table.get_update_of_ne _ _ fun index => same (by cases index; rfl)).symm.trans h

theorem contains_foldl_cases {l : List Node} (h : (l.foldl insert m).contains n = true) :
    m.contains n = true ∨ n ∈ l := by
  induction l generalizing m with
  | nil => exact .inl h
  | cons k rest ih =>
      rcases ih h with old | later
      · refine (contains_insert_cases old).imp id fun same => ?_
        rw [same]
        exact List.mem_cons_self ..
      · exact .inr (List.mem_cons_of_mem _ later)

end Marks

namespace Store

variable {s : Store} {n : Node}

theorem get_range_map {p : Nat → Bool} {size i : Nat} :
    (⟨((List.range size).map p).toArray⟩ : Table Bool).get i = true ↔ i < size ∧ p i = true := by
  by_cases inside : i < size
  · simp [Table.get, inside]
  · simp [Table.get, inside]

theorem contains_nodesWith (p : Node → Bool) :
    (s.nodesWith p).contains n = true ↔ s.Has n ∧ p n = true := by
  cases n <;> exact get_range_map

theorem hasRoom_nodesWith (p : Node → Bool) : (s.nodesWith p).HasRoom n ↔ s.Has n := by
  cases n <;> simp [Marks.HasRoom, nodesWith, Table.size, Has]

theorem mem_nodes_of_has (h : s.Has n) : n ∈ s.nodes := by
  have numbered : ∀ {size i : Nat} (f : Nat → Node), i < size → f i ∈ (List.range size).map f :=
    fun f inside => List.mem_map.2 ⟨_, List.mem_range.2 inside, rfl⟩
  simp only [nodes, List.mem_append, or_assoc]
  cases n with
  | cell c => exact .inl (numbered _ h)
  | vector v => exact .inr (.inl (numbered _ h))
  | frame f => exact .inr (.inr (.inl (numbered _ h)))
  | stack k => exact .inr (.inr (.inr (.inl (numbered _ h))))
  | expression e => exact .inr (.inr (.inr (.inr (.inl (numbered _ h)))))
  | call c => exact .inr (.inr (.inr (.inr (.inr (numbered _ h)))))

theorem contains_held {roots : List Node} {unused : Marks} (has : s.Has n)
    (h : n ∈ roots ∨ ∃ m, s.Has m ∧ unused.contains m = false ∧ n ∈ s.holds m) :
    (s.held roots unused).contains n = true := by
  refine Marks.contains_foldl (.inr ?_) ((hasRoom_nodesWith _).2 has)
  rcases h with root | ⟨m, hm, used, holds⟩
  · exact List.mem_append_left _ root
  · refine List.mem_append_right _ (List.mem_flatMap.2 ⟨m, ?_, holds⟩)
    exact List.mem_filter.2 ⟨mem_nodes_of_has hm, by simp [used]⟩

theorem releaseWithin_keeps {roots : List Node} {P : Node → Prop}
    (closed : ∀ n, P n → n ∈ roots ∨ ∃ m, P m ∧ s.Has m ∧ n ∈ s.holds m) (fuel : Nat)
    {unused : Marks} (used : ∀ n, P n → unused.contains n = false) :
    ∀ n, P n → (s.releaseWithin roots fuel unused).contains n = false := by
  induction fuel generalizing unused with
  | zero => exact used
  | succ fuel ih =>
      rw [releaseWithin]
      split
      · exact used
      · refine ih fun n hn => ?_
        rw [Bool.eq_false_iff]
        intro marked
        obtain ⟨has, out⟩ := (contains_nodesWith _).1 marked
        rw [used n hn, Bool.false_or, Bool.not_eq_true'] at out
        have held : (s.held roots unused).contains n = true := by
          refine contains_held has ((closed n hn).imp id ?_)
          rintro ⟨m, hm, inside, holds⟩
          exact ⟨m, inside, used m hm, holds⟩
        rw [held] at out
        cases out

theorem has_of_releaseWithin {roots : List Node} (fuel : Nat) {unused : Marks}
    (h : (s.releaseWithin roots fuel unused).contains n = true) :
    unused.contains n = true ∨ s.Has n := by
  induction fuel generalizing unused with
  | zero => exact .inl h
  | succ fuel ih =>
      rw [releaseWithin] at h
      split at h
      · exact .inl h
      · exact .inr ((ih h).elim (fun marked => ((contains_nodesWith _).1 marked).1) id)

/-- Only nodes of the store hold anything. -/
theorem has_of_mem_holds {m : Node} (h : m ∈ s.holds n) : s.Has n := by
  by_contra outside
  have nothing : s.holds n = [] := by
    cases n with
    | cell c => rw [holds, cell, get_eq_default (Nat.le_of_not_lt outside)]; rfl
    | vector v => rw [holds, vector, get_eq_default (Nat.le_of_not_lt outside)]; rfl
    | frame f => rw [holds, frame, get_eq_default (Nat.le_of_not_lt outside)]; rfl
    | stack k => rw [holds, stack, get_eq_default (Nat.le_of_not_lt outside)]; rfl
    | expression e => rw [holds, expression, get_eq_default (Nat.le_of_not_lt outside)]; rfl
    | call c => rw [holds, call, get_eq_default (Nat.le_of_not_lt outside)]; rfl
  rw [nothing] at h
  cases h

/-- A container holds the nodes of its children. -/
theorem mem_holds {parent child : Element} (below : child ∈ s.children parent) {m : Node}
    (hm : m ∈ child.node?) : ∃ k ∈ parent.node?, s.Has k ∧ m ∈ s.holds k := by
  have inside := inStore_of_child below
  cases parent with
  | vector v => exact ⟨_, rfl, inside, List.mem_filterMap.2 ⟨child, below, hm⟩⟩
  | frame f => exact ⟨_, rfl, inside, List.mem_filterMap.2 ⟨child, below, hm⟩⟩
  | stack k => exact ⟨_, rfl, inside, List.mem_filterMap.2 ⟨child, below, hm⟩⟩
  | _ => cases below

theorem held_cases {roots : List Node} {unused : Marks}
    (h : (s.held roots unused).contains n = true) :
    n ∈ roots ∨ ∃ m, unused.contains m = false ∧ n ∈ s.holds m := by
  rcases Marks.contains_foldl_cases h with marked | listed
  · obtain ⟨-, never⟩ := (contains_nodesWith _).1 marked
    cases never
  · refine (List.mem_append.1 listed).imp id fun below => ?_
    obtain ⟨m, hm, holds⟩ := List.mem_flatMap.1 below
    exact ⟨m, by simpa using (List.mem_filter.1 hm).2, holds⟩

theorem releaseWithin_marked {roots : List Node} (fuel : Nat) {unused : Marks} (has : s.Has n)
    (h : unused.contains n = true) : (s.releaseWithin roots fuel unused).contains n = true := by
  induction fuel generalizing unused with
  | zero => exact h
  | succ fuel ih =>
      rw [releaseWithin]
      split
      · exact h
      · exact ih ((contains_nodesWith _).2 ⟨has, by simp [h]⟩)

/-- A node that nothing in use holds goes out of use. -/
theorem releaseWithin_unheld {roots : List Node} (fuel : Nat) {unused : Marks} (has : s.Has n)
    (free : n ∉ roots) (unheld : ∀ m, unused.contains m = false → n ∉ s.holds m) :
    (s.releaseWithin roots (fuel + 1) unused).contains n = true := by
  have out : (s.held roots unused).contains n = false := by
    rw [Bool.eq_false_iff]
    intro held
    rcases held_cases held with root | ⟨m, used, holds⟩
    · exact free root
    · exact unheld m used holds
  rw [releaseWithin]
  split
  case isTrue all =>
    have here := List.all_eq_true.1 all n (mem_nodes_of_has has)
    simpa [out] using here
  case isFalse =>
    exact releaseWithin_marked fuel has ((contains_nodesWith _).2 ⟨has, by simp [out]⟩)

/-- What a node in use holds is there and in use, after as before nodes go out of use. -/
theorem releaseWithin_closed {roots : List Node} (fuel : Nat) {unused : Marks}
    (marked : ∀ n, unused.contains n = true → s.Has n)
    (closed : ∀ n, unused.contains n = false → ∀ m ∈ s.holds n,
      s.Has m ∧ unused.contains m = false) :
    ∀ n, (s.releaseWithin roots fuel unused).contains n = false → ∀ m ∈ s.holds n,
      s.Has m ∧ (s.releaseWithin roots fuel unused).contains m = false := by
  induction fuel generalizing unused with
  | zero => exact closed
  | succ fuel ih =>
      rw [releaseWithin]
      split
      · exact closed
      · refine ih (fun n out => ((contains_nodesWith _).1 out).1) fun n used m hm => ?_
        have has := has_of_mem_holds hm
        have before : unused.contains n = false := by
          rw [Bool.eq_false_iff]
          intro out
          have still := (contains_nodesWith (s := s) (n := n)
            fun n => unused.contains n || !(s.held roots unused).contains n).2 ⟨has, by simp [out]⟩
          rw [used] at still
          cases still
        obtain ⟨inside, mused⟩ := closed n before m hm
        have held : (s.held roots unused).contains m = true :=
          contains_held inside (.inr ⟨n, has, before, hm⟩)
        refine ⟨inside, ?_⟩
        rw [Bool.eq_false_iff]
        intro out
        obtain ⟨-, out⟩ := (contains_nodesWith _).1 out
        simp [mused, held] at out

end Store

namespace Build

variable {b : Build}

/-- Nodes that the outside world or other such nodes hold stay in use. -/
theorem alive_sweep {P : Node → Prop}
    (closed : ∀ n, P n → n ∈ b.pins ∨ ∃ m, P m ∧ b.store.Has m ∧ n ∈ b.store.holds m)
    (alive : ∀ n, P n → b.alive n = true) {n : Node} (hn : P n) : b.sweep.alive n = true := by
  have used : ∀ n, P n → b.unused.contains n = false := fun n hn => by
    simpa [Build.alive] using alive n hn
  simp only [Build.alive, Bool.not_eq_true']
  exact releaseWithin_keeps closed (b.store.nodes.length + 1) used n hn

theorem has_of_not_alive_sweep {n : Node} (h : b.sweep.alive n = false) :
    b.alive n = false ∨ b.store.Has n := by
  simp only [Build.alive, Bool.not_eq_false'] at h ⊢
  exact has_of_releaseWithin _ h

theorem alive_of_alive_sweep {n : Node} (has : b.store.Has n) (h : b.sweep.alive n = true) :
    b.alive n = true := by
  rw [Build.alive, Bool.not_eq_true'] at h ⊢
  rw [Bool.eq_false_iff]
  intro out
  rw [sweep, release, releaseWithin_marked _ has out] at h
  cases h

theorem not_alive_sweep {n : Node} (has : b.store.Has n) (free : n ∉ b.pins)
    (unheld : ∀ m, b.alive m = true → n ∉ b.store.holds m) : b.sweep.alive n = false := by
  rw [Build.alive, Bool.not_eq_false']
  exact releaseWithin_unheld _ has free fun m used => unheld m (by rw [Build.alive, used]; rfl)

end Build

end Spreadsheet
