import Spreadsheet.Proofs.Tidy.Build

/-!
# Giving containers their children

A container may be given any children that are at hand and may stand in it, as long as a header cell
stays in front.  So an element may be pushed or inserted into it that does not contain it.  Vectors may
be turned as long as no frame in use holds them.
-/

namespace Spreadsheet

open Store

namespace Store

variable {use use' : Node → Prop} {s : Store} {e child : Element} {l before old mid rest : List Element}

/-! ## Lists of children -/

/-- Whether a container may have some elements for its children, in their order. -/
structure Suits (use : Node → Prop) (s : Store) (e : Element) (l : List Element) : Prop where
  atHand : ∀ z ∈ l, z.Meets (s.AtHand use)
  takes : ∀ z ∈ l, s.Takes e z
  headed : ∀ v, e = .vector v → (s.vector v).headerInserted = true →
    ∃ c, l.head? = some (.cell c) ∧ (s.cell c).isHeader = true

theorem Owned.suits (owned : s.Owned use) (sound : s.Sound use') (used : e.Meets use)
    (used' : e.Meets use') : s.Suits use e (s.children e) where
  atHand _ := owned.child used
  takes := sound.takes e used'
  headed v same inserted := by
    subst same
    exact sound.headed v (used' _ rfl) inserted

/-- Putting others in the place of some children; a header cell is in front of these. -/
theorem Suits.splice (h : s.Suits use e (before ++ old ++ rest))
    (atHand : ∀ z ∈ mid, z.Meets (s.AtHand use)) (takes : ∀ z ∈ mid, s.Takes e z)
    (front : ∀ v, e = .vector v → (s.vector v).headerInserted = true → before ≠ []) :
    s.Suits use e (before ++ mid ++ rest) where
  atHand z hz := by
    simp only [List.mem_append] at hz
    rcases hz with (hz | hz) | hz
    · exact h.atHand z (by simp [hz])
    · exact atHand z hz
    · exact h.atHand z (by simp [hz])
  takes z hz := by
    simp only [List.mem_append] at hz
    rcases hz with (hz | hz) | hz
    · exact h.takes z (by simp [hz])
    · exact takes z hz
    · exact h.takes z (by simp [hz])
  headed v same inserted := by
    obtain ⟨c, first, header⟩ := h.headed v same inserted
    refine ⟨c, ?_, header⟩
    cases before with
    | nil => exact absurd rfl (front v same inserted)
    | cons x before => exact first

theorem has_setChildren (s : Store) (e : Element) (l : List Element) (n : Node) :
    (s.setChildren e l).Has n ↔ s.Has n := by
  cases e <;> cases n <;>
    simp [setChildren, Has, updateVector, updateFrame, updateStack]

theorem cell_setChildren (s : Store) (e : Element) (l : List Element) (c : CellId) :
    (s.setChildren e l).cell c = s.cell c := by
  cases e <;> rfl

theorem holds_setChildren_cases (s : Store) (e : Element) (l : List Element) (n : Node) :
    (s.setChildren e l).holds n = s.holds n ∨
      (s.setChildren e l).holds n = l.filterMap Element.node? := by
  cases e with
  | vector v =>
      cases n with
      | vector w =>
          rcases vector_updateVector_cases s v w (fun n => { n with children := l }) with same | same
          · exact .inl (by rw [setChildren, Store.holds, same, Store.holds])
          · exact .inr (by rw [setChildren, Store.holds, same])
      | _ => exact .inl rfl
  | frame f =>
      cases n with
      | frame g =>
          rcases frame_updateFrame_cases s f g (fun n => { n with children := l }) with same | same
          · exact .inl (by rw [setChildren, Store.holds, same, Store.holds])
          · exact .inr (by rw [setChildren, Store.holds, same])
      | _ => exact .inl rfl
  | stack k =>
      cases n with
      | stack j =>
          rcases stack_updateStack_cases s k j (fun n => { n with children := l }) with same | same
          · exact .inl (by rw [setChildren, Store.holds, same, Store.holds])
          · exact .inr (by rw [setChildren, Store.holds, same])
      | _ => exact .inl rfl
  | _ => exact .inl rfl

theorem Owned.setChildren (h : s.Owned use) (suits : s.Suits use e l)
    (wf : (s.setChildren e l).WellFormed) : (s.setChildren e l).Owned use where
  wf := wf
  unborn n outside := h.unborn n fun old => outside ((has_setChildren s e l n).2 old)
  holds n used m hm := by
    suffices s.AtHand use m from this.imp (has_setChildren s e l m).2 id
    rcases holds_setChildren_cases s e l n with same | same
    · rw [same] at hm
      exact h.holds n used m hm
    · rw [same] at hm
      obtain ⟨z, hz, hm⟩ := List.mem_filterMap.1 hm
      exact suits.atHand z hz m hm

theorem Sound.setChildren (h : s.Sound use') (suits : s.Suits use e l) :
    (s.setChildren e l).Sound use' := by
  obtain ⟨axes, headers⟩ := Prod.mk.inj (marks_setChildren s e l)
  refine ⟨fun x used child below => ?_, fun v used inserted => ?_⟩
  · suffices s.Takes x child from this.congr (congrFun axes x) (congrFun axes child)
    rcases children_setChildren_cases s e x l with same | ⟨rfl, same⟩
    · exact h.takes x used child (same ▸ below)
    · exact suits.takes child (same ▸ below)
  · rw [(Prod.mk.inj (congrFun headers v)).2] at inserted
    rcases children_setChildren_cases s e (.vector v) l with same | ⟨here, same⟩
    · obtain ⟨c, first, header⟩ := h.headed v used inserted
      exact ⟨c, by rw [same, first], by rw [cell_setChildren, header]⟩
    · obtain ⟨c, first, header⟩ := suits.headed v here.symm inserted
      exact ⟨c, by rw [same, first], by rw [cell_setChildren, header]⟩

theorem Tidy.setChildren (h : s.Tidy use) (suits : s.Suits use e l)
    (wf : (s.setChildren e l).WellFormed) : (s.setChildren e l).Tidy use :=
  ⟨h.toOwned.setChildren suits wf, h.toSound.setChildren suits⟩

/-! ## New children -/

/-- Whether an element may become a child of a container. -/
structure Joins (use : Node → Prop) (s : Store) (e child : Element) : Prop where
  atHand : child.Meets (s.AtHand use)
  takes : s.Takes e child
  apart : ¬Reach s child e

/-- A container may be given one more child, behind its header cell. -/
theorem Tidy.join (h : s.Tidy use) (used : e.Meets use) (joins : s.Joins use e child)
    (split : s.children e = before ++ rest)
    (front : ∀ v, e = .vector v → (s.vector v).headerInserted = true → before ≠ []) :
    (s.setChildren e (before ++ child :: rest)).Tidy use := by
  have suits : s.Suits use e (before ++ [child] ++ rest) := by
    have now : s.Suits use e (before ++ [] ++ rest) := by
      rw [List.append_nil, ← split]
      exact h.toOwned.suits h.toSound used used
    exact now.splice (fun z hz => List.mem_singleton.1 hz ▸ joins.atHand)
      (fun z hz => List.mem_singleton.1 hz ▸ joins.takes) front
  rw [List.append_assoc, List.singleton_append] at suits
  have regroups := regroups_setChildren s e (before ++ child :: rest)
  have given : ∀ x, ∀ z ∈ (s.setChildren e (before ++ child :: rest)).children x,
      z ∈ s.children x ∨ x = e ∧ z = child := by
    intro x z hz
    rcases children_setChildren_cases s e x (before ++ child :: rest) with same | ⟨rfl, same⟩
    · exact .inl (same ▸ hz)
    · rw [same] at hz
      rw [split]
      simp only [List.mem_append, List.mem_cons] at hz ⊢
      tauto
  refine h.setChildren suits ⟨regroups.acyclic h.wf fun z hz => ?_, fun x z hz => ?_, fun c => ?_⟩
  · rcases given e z hz with old | ⟨-, rfl⟩
    · exact h.wf.acyclic e z old
    · exact joins.apart
  · refine (regroups.inStore z).2 ?_
    rcases given x z hz with old | ⟨-, rfl⟩
    · exact h.wf.closed x z old
    · exact inStore_of_meets fun n hn => (joins.atHand n hn).1
  · rw [regroups.merge c]
    exact h.wf.merges c

/-- No vector contains another container. -/
theorem Tidy.not_reach_vector (h : s.Tidy use) {v : VectorId} (used : use (.vector v))
    (container : e.isContainer = true) (other : e ≠ .vector v) : ¬Reach s (.vector v) e :=
  not_reach_of_flat (h.takes (.vector v) (by rintro _ ⟨⟩; exact used)) container other

/-! ## Turning -/

/-- The store in which some vectors lie along an axis. -/
def turned (s : Store) (o : Orientation) (vectors : List VectorId) : Store :=
  vectors.foldl (fun s v => s.updateVector v ({ · with orientation := o })) s

variable {o : Orientation} {vectors : List VectorId}

theorem has_turned (s : Store) (o : Orientation) (vectors : List VectorId) (n : Node) :
    (s.turned o vectors).Has n ↔ s.Has n := by
  have same : Store.Has (s.turned o vectors) = Store.Has s := by
    apply foldl_keeps
    intro s v
    funext n
    cases n <;> simp [Has, updateVector]
  exact iff_of_eq (congrFun same n)

theorem left_turned {x : Element} (other : ∀ v ∈ vectors, x ≠ .vector v) :
    Left s (s.turned o vectors) x := by
  induction vectors generalizing s with
  | nil => exact .refl s x
  | cons v rest ih =>
      exact (left_updateVector s _ (other v (by simp))).trans
        (ih fun w hw => other w (List.mem_cons_of_mem v hw))

theorem vector_turned (inside : ∀ v ∈ vectors, s.Has (.vector v)) {w : VectorId}
    (mem : w ∈ vectors) :
    (s.turned o vectors).vector w = { s.vector w with orientation := o } := by
  induction vectors generalizing s with
  | nil => cases mem
  | cons v rest ih =>
      let first : Store := s.updateVector v ({ · with orientation := o })
      show (first.turned o rest).vector w = _
      have still : ∀ u ∈ rest, first.Has (.vector u) := fun u hu =>
        (has_turned s o [v] _).2 (inside u (List.mem_cons_of_mem v hu))
      have self : first.vector v = { s.vector v with orientation := o } :=
        Table.get_update_self s.vectors _ (inside v (by simp))
      by_cases later : w ∈ rest
      · rw [ih still later]
        by_cases here : w = v
        · rw [here, self]
        · rw [show first.vector w = s.vector w from vector_updateVector_of_ne s _ (Ne.symm here)]
      · obtain rfl := (List.mem_cons.1 mem).resolve_right later
        have same : (first.turned o rest).vector w = first.vector w :=
          left_turned (x := .vector w) fun u hu here => later (Element.vector.inj here ▸ hu)
        rw [same, self]

theorem holds_turned (inside : ∀ v ∈ vectors, s.Has (.vector v)) (n : Node) :
    (s.turned o vectors).holds n = s.holds n := by
  by_cases here : ∃ v ∈ vectors, n.element = .vector v
  · obtain ⟨v, mem, same⟩ := here
    cases n with
    | vector w =>
        obtain rfl := Element.vector.inj same
        rw [Store.holds, vector_turned inside mem, Store.holds]
    | _ => cases same
  · exact (left_turned fun v hv same => here ⟨v, hv, same⟩).holds

theorem Owned.turned (h : s.Owned use) (inside : ∀ v ∈ vectors, s.Has (.vector v)) :
    (s.turned o vectors).Owned use where
  wf := (BuildM.alike_turned o vectors s).wellFormed h.wf
  unborn n outside := h.unborn n fun old => outside ((has_turned s o vectors n).2 old)
  holds n used m hm := by
    rw [holds_turned inside] at hm
    exact (h.holds n used m hm).imp (has_turned s o vectors m).2 id

/-- Vectors may be turned that no frame in use holds. -/
theorem Sound.turned (h : s.Sound use) (inside : ∀ v ∈ vectors, s.Has (.vector v))
    (free : ∀ v ∈ vectors, ∀ f, use (.frame f) → .vector v ∉ s.children (.frame f)) :
    (s.turned o vectors).Sound use := by
  have children := (BuildM.alike_turned o vectors s).children
  refine ⟨fun e used child below => ?_, fun v used inserted => ?_⟩
  · have takes := h.takes e used child (children e ▸ below)
    cases e with
    | frame f =>
        refine takes.congr (left_turned fun _ _ => (by nofun)).orientation?
          (left_turned fun v hv same => ?_).orientation?
        subst same
        exact free v hv f (used _ rfl) (children _ ▸ below)
    | _ => exact takes
  · have same : ((s.turned o vectors).vector v).headerInserted = (s.vector v).headerInserted := by
      by_cases here : v ∈ vectors
      · rw [vector_turned inside here]
      · exact congrArg VectorNode.headerInserted
          (left_turned (x := .vector v) fun u hu same => here (Element.vector.inj same ▸ hu))
    obtain ⟨c, first, header⟩ := h.headed v used (same ▸ inserted)
    have cell : (s.turned o vectors).cell c = s.cell c := left_turned (x := .cell c) (by nofun)
    exact ⟨c, (congrArg List.head? (children _)).trans first, by rw [cell, header]⟩

end Store

/-! ## Pushing and inserting -/

namespace BuildM

open Build

variable {b : Build} {container item : Element}

/-- The vector that a cell becomes in a frame or a stack may become a child of it. -/
theorem promoted_joins (h : b.Tidy) {c : CellId} (here : b.store.AtHand b.Alive (.cell c))
    {o : Orientation} (axis : b.store.orientation? container = some o)
    (other : ∀ v, container ≠ .vector v) : Ensures (promoted c o) b Build.Tidy fun e t =>
      t.use = b.use ∧ Grown b.store t.store ∧ t.store.Joins b.Alive container e := by
  refine Ensures.bind (P := fun v t => t.use = b.use ∧ Grown b.store t.store ∧
    t.store.Joins b.Alive container (.vector v))
    (ensures_liftStore fun v t led => ?_) fun v t tidy joins => .pure tidy joins
  obtain ⟨supplies, there, along⟩ := StoreM.promote_supplies h.store here led
  refine ⟨h.restock supplies.tidy supplies.grown.has, rfl, supplies.grown, ?_, ?_, ?_⟩
  · rintro _ ⟨⟩
    exact there
  · cases container with
    | vector v => exact absurd rfl (other v)
    | frame f =>
        have same : t.frame f = b.store.frame f := congrArg (Table.get · f.index) supplies.frames
        have axis : (t.frame f).orientation = o := by
          rw [same]
          exact Option.some.inj axis
        show some (t.vector v).orientation = some (t.frame f).orientation.cross
        rw [along, axis]
    | stack k => rfl
    | _ => cases axis
  · apply supplies.tidy.not_reach_vector there.2 _ (other v)
    cases container <;> first | rfl | cases axis

/-- What a container makes of an element may become its child, unless it is a stack in the element. -/
theorem childFor_joins (h : b.Tidy) (here : item.Meets (b.store.AtHand b.Alive))
    (apart : ∀ k, container = .stack k → ¬Reach b.store item container) :
    Ensures (childFor container item) b Build.Tidy fun child t =>
      t.use = b.use ∧ t.store.Joins b.Alive container child := by
  have whole : b.store.Takes container item → ¬Reach b.store item container →
      Ensures (pure item : BuildM Element) b Build.Tidy fun child t =>
        t.use = b.use ∧ t.store.Joins b.Alive container child :=
    fun takes apart => .pure h ⟨rfl, here, takes, apart⟩
  have refused : Ensures (refuse container item : BuildM Element) b Build.Tidy fun child t =>
      t.use = b.use ∧ t.store.Joins b.Alive container child :=
    Ensures.get_bind (.throw h)
  have lone : ∀ {c : CellId} {o : Orientation}, b.store.AtHand b.Alive (.cell c) →
      b.store.orientation? container = some o → (∀ v, container ≠ .vector v) →
      Ensures (promoted c o) b Build.Tidy fun child t =>
        t.use = b.use ∧ t.store.Joins b.Alive container child := fun there axis other =>
    (promoted_joins h there axis other).imp (fun _ => id) fun _ _ _ made => ⟨made.1, made.2.2⟩
  have leaf : item.isContainer = false → container.isContainer = true →
      ¬Reach b.store item container :=
    not_reach_of_not_isContainer
  unfold childFor
  apply Ensures.get_bind
  split
  · exact whole rfl (leaf rfl rfl)
  · exact whole rfl (leaf rfl rfl)
  · exact whole rfl (leaf rfl rfl)
  · exact whole rfl (leaf rfl rfl)
  · refine .ite (fun across => ?_) fun _ => refused
    exact whole (congrArg some across) (h.store.not_reach_vector (here _ rfl).2 rfl (by nofun))
  · exact lone (here _ rfl) rfl (by nofun)
  · exact whole ⟨rfl, rfl⟩ (leaf rfl rfl)
  · exact whole ⟨rfl, rfl⟩ (leaf rfl rfl)
  · exact whole ⟨rfl, rfl⟩ (leaf rfl rfl)
  · exact lone (here _ rfl) rfl (by nofun)
  · rename_i k other
    refine whole ?_ (apart k rfl)
    cases item with
    | cell c => exact (other c rfl).elim
    | _ => rfl
  · exact refused

/-- Adding what a container makes of an element to its children, behind its header cell. -/
theorem join_tidy (h : b.Tidy) (used : container.Meets b.Alive)
    (here : item.Meets (b.store.AtHand b.Alive))
    (apart : ∀ k, container = .stack k → ¬Reach b.store item container)
    {f : Element → Store → Store}
    (placed : ∀ (s : Store) (child : Element), s.Tidy b.Alive → ∃ before rest,
      s.children container = before ++ rest ∧
      f child s = s.setChildren container (before ++ child :: rest) ∧
      ∀ v, container = .vector v → (s.vector v).headerInserted = true → before ≠ []) :
    Ensures (childFor container item >>= fun child => changeStore (f child)) b Build.Tidy
      fun _ _ => True := by
  refine (childFor_joins h here apart).bind fun child t tidy made => .modify ?_ trivial
  obtain ⟨same, joins⟩ := made
  have store : t.store.Tidy b.Alive := alive_eq same ▸ tidy.store
  obtain ⟨before, rest, split, eq, front⟩ := placed t.store child store
  rw [eq]
  refine tidy.restock ?_ fun n => (has_setChildren t.store container _ n).2
  rw [alive_eq same]
  exact store.join used joins split front

theorem push_tidy (h : b.Tidy) (used : container.Meets b.Alive)
    (here : item.Meets (b.store.AtHand b.Alive))
    (apart : ∀ k, container = .stack k → ¬Reach b.store item container) :
    Ensures (push container item) b Build.Tidy fun _ _ => True := by
  refine join_tidy h used here apart fun s child tidy =>
    ⟨s.children container, [], (List.append_nil _).symm, rfl, ?_⟩
  rintro v rfl inserted none
  obtain ⟨c, first, -⟩ := tidy.headed v (used _ rfl) inserted
  rw [none] at first
  cases first

/-- Inserting into a list puts the element between a front and a rest. -/
theorem exists_split_insertIdx {α : Type} (l : List α) (a : α) {i : Nat} (inside : i ≤ l.length) :
    ∃ before rest, l = before ++ rest ∧ l.insertIdx i a = before ++ a :: rest ∧
      before.length = i := by
  induction i generalizing l with
  | zero => exact ⟨[], l, rfl, by simp, rfl⟩
  | succ i ih =>
      cases l with
      | nil => cases inside
      | cons x l =>
          obtain ⟨before, rest, split, inserted, length⟩ := ih l (Nat.le_of_succ_le_succ inside)
          exact ⟨x :: before, rest, by simp [split], by simp [inserted], by simp [length]⟩

theorem insert_tidy (h : b.Tidy) (used : container.Meets b.Alive) (position : Nat)
    (here : item.Meets (b.store.AtHand b.Alive))
    (apart : ∀ k, container = .stack k → ¬Reach b.store item container) :
    Ensures (insert container position item) b Build.Tidy fun _ _ => True := by
  refine join_tidy h used here apart fun s child tidy => ?_
  suffices behind : ∀ offset, (∀ v, container = .vector v →
      offset = (s.vector v).headerInserted.toNat) → ∃ before rest,
      s.children container = before ++ rest ∧ s.setChildren container ((s.children container).insertIdx
        (min (position + offset) (s.children container).length) child) =
          s.setChildren container (before ++ child :: rest) ∧
      ∀ v, container = .vector v → (s.vector v).headerInserted = true → before ≠ [] from
    behind _ (by rintro v rfl; rfl)
  intro offset counted
  obtain ⟨before, rest, split, inserted, length⟩ := exists_split_insertIdx (s.children container)
    child (Nat.min_le_right (position + offset) _)
  refine ⟨before, rest, split, congrArg _ inserted, ?_⟩
  rintro v rfl marked none
  -- The header cell is there and is counted.
  have header := tidy.length_headerInserted (used _ rfl)
  have counted := counted v rfl
  rw [marked] at header counted
  simp only [none, Store.children, Bool.toNat_true, List.length_nil] at length header counted
  omega

end BuildM

end Spreadsheet
