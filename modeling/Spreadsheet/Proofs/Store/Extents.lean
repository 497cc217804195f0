import Spreadsheet.Proofs.Store.Reach

/-!
# Extents of nested blocks

Extents are compared by rows and columns together.  A container is never smaller than its children,
and it does not get smaller when they grow.
-/

namespace Spreadsheet

instance : Preorder Extent where
  le a b := a.rows ≤ b.rows ∧ a.cols ≤ b.cols
  le_refl _ := ⟨Nat.le_refl _, Nat.le_refl _⟩
  le_trans _ _ _ first second := ⟨first.1.trans second.1, first.2.trans second.2⟩

namespace Extent

theorem le_iff (o : Orientation) {a b : Extent} :
    a ≤ b ↔ o.along a ≤ o.along b ∧ o.across a ≤ o.across b := by
  cases o with
  | horizontal => exact ⟨fun h => ⟨h.2, h.1⟩, fun h => ⟨h.2, h.1⟩⟩
  | vertical => exact Iff.rfl

end Extent

theorem Orientation.extent_le (o : Orientation) {a b c d : Nat} (along : a ≤ c) (across : b ≤ d) :
    o.extent a b ≤ o.extent c d := by
  rw [Extent.le_iff o]
  simpa using ⟨along, across⟩

/-! ## Sums and maxima -/

theorem Number.le_total_of_mem {n : Nat} {l : List Nat} (h : n ∈ l) : n ≤ Number.total l := by
  induction l with
  | nil => cases h
  | cons m l ih =>
      rw [Number.total_cons]
      rcases List.mem_cons.1 h with rfl | h
      · omega
      · have := ih h
        omega

theorem foldl_max_le_iff {l : List Nat} {start n : Nat} :
    l.foldl max start ≤ n ↔ start ≤ n ∧ ∀ m ∈ l, m ≤ n := by
  induction l generalizing start with
  | nil => simp
  | cons m l ih =>
      rw [List.foldl_cons, ih, max_le_iff]
      simp [and_assoc]

theorem le_foldl_max_of_mem {n start : Nat} {l : List Nat} (h : n ∈ l) : n ≤ l.foldl max start :=
  (foldl_max_le_iff.1 (Nat.le_refl _)).2 n h

/-- The maximum of numbers is the start or one of them. -/
theorem foldl_max_mem (l : List Nat) (start : Nat) : l.foldl max start ∈ start :: l := by
  induction l generalizing start with
  | nil => exact List.mem_singleton_self start
  | cons n l ih =>
      have later : l.foldl max (max start n) ∈ max start n :: l := ih (max start n)
      rcases List.mem_cons.1 later with here | there
      · rcases max_choice start n with same | same
        · exact List.mem_cons.2 (.inl (here.trans same))
        · exact List.mem_cons_of_mem _ (List.mem_cons.2 (.inl (here.trans same)))
      · exact List.mem_cons_of_mem _ (List.mem_cons_of_mem _ there)

namespace Store

variable {s t : Store}

/-- Whether blocks that follow each other get no smaller along an axis, nor across it, when others
take their place. -/
def Covers (o : Orientation) (old new : List Extent) : Prop :=
  Number.total (old.map o.along) ≤ Number.total (new.map o.along) ∧
    ∀ n, (∀ b ∈ new, o.across b ≤ n) → ∀ a ∈ old, o.across a ≤ n

theorem stacked_le {o : Orientation} {old new : List Extent} (h : Covers o old new) :
    stacked o old ≤ stacked o new := by
  refine o.extent_le h.1 ?_
  rw [foldl_max_le_iff]
  refine ⟨Nat.zero_le _, fun m hm => ?_⟩
  obtain ⟨a, ha, rfl⟩ := List.mem_map.1 hm
  exact h.2 _ (fun b hb => le_foldl_max_of_mem (List.mem_map_of_mem hb)) a ha

theorem Covers.append {o : Orientation} {old new old' new' : List Extent} (first : Covers o old new)
    (second : Covers o old' new') : Covers o (old ++ old') (new ++ new') := by
  refine ⟨?_, fun n h a ha => ?_⟩
  · have := first.1
    have := second.1
    simp only [List.map_append, Number.total_append]
    omega
  · rcases List.mem_append.1 ha with ha | ha
    · exact first.2 n (fun b hb => h b (List.mem_append_left _ hb)) a ha
    · exact second.2 n (fun b hb => h b (List.mem_append_right _ hb)) a ha

theorem covers_singleton {o : Orientation} {a b : Extent} (h : a ≤ b) : Covers o [a] [b] := by
  have inner := (Extent.le_iff o).1 h
  refine ⟨by simpa using inner.1, fun n hn x hx => ?_⟩
  rw [List.mem_singleton.1 hx]
  exact inner.2.trans (hn b (by simp))

theorem covers_empty (o : Orientation) (new : List Extent) : Covers o [⟨0, 0⟩] new := by
  refine ⟨by cases o <;> exact Nat.zero_le _, fun n _ a ha => ?_⟩
  rw [List.mem_singleton.1 ha]
  cases o <;> exact Nat.zero_le n

theorem covers_nil (o : Orientation) (new : List Extent) : Covers o [] new :=
  ⟨Nat.zero_le _, fun _ _ a ha => by cases ha⟩

theorem covers_refl (o : Orientation) (l : List Extent) : Covers o l l :=
  ⟨Nat.le_refl _, fun _ h => h⟩

theorem covers_map {α : Type} {l : List α} {x y : α → Extent} (o : Orientation)
    (h : ∀ a ∈ l, x a ≤ y a) : Covers o (l.map x) (l.map y) := by
  induction l with
  | nil => exact covers_refl o []
  | cons a l ih =>
      exact (covers_singleton (h a (by simp))).append
        (ih fun b hb => h b (List.mem_cons_of_mem a hb))

theorem covers_of_forall₂ {o : Orientation} {old new : List Extent}
    (h : List.Forall₂ (· ≤ ·) old new) : Covers o old new := by
  induction h with
  | nil => exact covers_refl o []
  | cons head _ ih => exact (covers_singleton head).append ih

theorem le_stacked {o : Orientation} {a : Extent} {l : List Extent} (h : a ∈ l) :
    a ≤ stacked o l := by
  rw [Extent.le_iff o, stacked, Orientation.along_extent, Orientation.across_extent]
  exact ⟨Number.le_total_of_mem (List.mem_map_of_mem h),
    le_foldl_max_of_mem (List.mem_map_of_mem h)⟩

/-! ## Extents over those of the children -/

theorem stacked_le_extentOver {e : Element} {o : Orientation} (ho : s.orientation? e = some o)
    (below : List Extent) : stacked o below ≤ s.extentOver below e := by
  cases e with
  | vector v =>
      cases ho
      rw [Extent.le_iff (s.vector v).orientation]
      simp only [extentOver, Orientation.along_extent, Orientation.across_extent]
      omega
  | frame f => cases ho; exact le_refl _
  | stack k => cases ho; exact le_refl _
  | cell c => cases ho
  | gap g => cases ho
  | expression x => cases ho
  | call c => cases ho

theorem extentOver_le {e : Element} {old new : List Extent} (h : ∀ o, Covers o old new) :
    s.extentOver old e ≤ s.extentOver new e := by
  cases e with
  | vector v =>
      have inner := (Extent.le_iff (s.vector v).orientation).1
        (stacked_le (h (s.vector v).orientation))
      simp only [extentOver]
      refine Orientation.extent_le _ ?_ ?_
      · omega
      · omega
  | frame f => exact stacked_le (h _)
  | stack k => exact stacked_le (h _)
  | cell c => exact le_refl _
  | gap g => exact le_refl _
  | expression x => exact le_refl _
  | call c => exact le_refl _

theorem orientation?_of_isContainer {e : Element} (h : e.isContainer = true) :
    ∃ o, s.orientation? e = some o := by
  cases e with
  | vector v => exact ⟨_, rfl⟩
  | frame f => exact ⟨_, rfl⟩
  | stack k => exact ⟨_, rfl⟩
  | cell c => cases h
  | gap g => cases h
  | expression x => cases h
  | call c => cases h

theorem Acyclic.extent_child_le (h : s.Acyclic) {e child : Element}
    (below : child ∈ s.children e) : s.extent child ≤ s.extent e := by
  obtain ⟨o, ho⟩ := orientation?_of_isContainer (s := s) (isContainer_of_child below)
  rw [h.extent_eq e]
  exact (le_stacked (List.mem_map_of_mem below)).trans (stacked_le_extentOver ho _)

theorem Acyclic.extent_le_of_reach (h : s.Acyclic) {a b : Element} (reach : Reach s a b) :
    s.extent b ≤ s.extent a := by
  induction reach with
  | root => exact le_refl _
  | child _ below ih => exact (h.extent_child_le below).trans ih

/-- Extents grow from one store to another when every element is, over the same extents below it, at
least as large as before. -/
theorem Acyclic.extent_mono (hs : s.Acyclic) (ht : t.Acyclic)
    (closed : ∀ e child, child ∈ s.children e → s.InStore child)
    (step : ∀ e, s.InStore e → s.extentOver ((s.children e).map t.extent) e ≤
      t.extentOver ((t.children e).map t.extent) e) (e : Element) (he : s.InStore e) :
    s.extent e ≤ t.extent e := by
  induction e using hs.induction with
  | step e ih =>
      have below : ∀ child ∈ s.children e, s.extent child ≤ t.extent child :=
        fun child hchild => ih child hchild (closed e child hchild)
      rw [hs.extent_eq e, ht.extent_eq e]
      exact (extentOver_le fun o => covers_map o below).trans (step e he)

end Store

end Spreadsheet
