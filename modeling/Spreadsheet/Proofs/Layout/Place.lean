import Spreadsheet.Proofs.Layout.Gaps

/-!
# Where elements are placed

Placing gives every element below the root a location and changes nothing else.  An element that is
in the tree twice keeps the later of its places; one that has cells below it, none of them twice, is
in the tree once, and stands behind its earlier siblings, as far as they extend.
-/

namespace Spreadsheet.Store

variable {s t u : Store} {o : Orientation}

/-! ## Moving -/

/-- Whether two stores differ in nothing but content and the locations of some elements. -/
structure Moves (touched : Element → Prop) (s t : Store) : Prop extends Alike s t where
  orientation : ∀ e, t.orientation? e = s.orientation? e
  extentOver : ∀ e below, t.extentOver below e = s.extentOver below e
  location : ∀ e, t.location? e = s.location? e ∨ touched e
  located : ∀ e, (s.location? e).isSome → (t.location? e).isSome

variable {touched : Element → Prop}

theorem Moves.refl (s : Store) : Moves touched s s where
  toAlike := .refl s
  orientation _ := rfl
  extentOver _ _ := rfl
  location _ := .inl rfl
  located _ h := h

theorem Moves.trans (first : Moves touched s t) (second : Moves touched t u) :
    Moves touched s u where
  toAlike := first.toAlike.trans second.toAlike
  orientation e := (second.orientation e).trans (first.orientation e)
  extentOver e below := (second.extentOver e below).trans (first.extentOver e below)
  location e := by
    rcases second.location e with same | moved
    · rcases first.location e with same' | moved
      · exact .inl (same.trans same')
      · exact .inr moved
    · exact .inr moved
  located e h := second.located e (first.located e h)

theorem Moves.imp {other : Element → Prop} (h : Moves touched s t)
    (imp : ∀ e, touched e → other e) : Moves other s t where
  toAlike := h.toAlike
  orientation := h.orientation
  extentOver := h.extentOver
  location e := (h.location e).imp id (imp e)
  located := h.located

theorem Moves.extent_eq (h : Moves touched s t) (acyclic : s.Acyclic) (e : Element) :
    t.extent e = s.extent e := by
  have acyclic' := h.toAlike.acyclic acyclic
  induction e using acyclic.induction with
  | step e ih =>
      rw [acyclic.extent_eq e, acyclic'.extent_eq e, h.children e, h.extentOver e]
      congr 1
      exact List.map_congr_left ih

theorem Alike.leaves_eq (h : Alike s t) (acyclic : s.Acyclic) (e : Element) :
    t.leaves e = s.leaves e := by
  have acyclic' := h.acyclic acyclic
  induction e using acyclic.induction with
  | step e ih =>
      rw [acyclic.leaves_eq e, acyclic'.leaves_eq e, h.children e]
      congr 1
      exact List.flatMap_congr ih

/-- Nothing but the locations differs, so that every tree is as it was. -/
theorem Moves.grows {roots : List Element} (h : Moves touched s t) (wf : s.WellFormed)
    (below : ∀ e, touched e → ∃ r ∈ roots, Reach s r e) : Grows roots s t :=
  .of_alike wf h.toAlike (fun e => (h.location e).imp id (below e)) fun e b =>
    le_of_eq (h.extentOver e b).symm

/-! ## Placing one element -/

private theorem moves_updateCell (s : Store) (c : CellId) (l : Location) :
    Moves (· = .cell c) s (s.setLocation (.cell c) l) where
  inStore := inStore_updateCell s c _
  children := children_updateCell s c _
  merge d := by
    rcases cell_updateCell_cases s c d (fun n => { n with location := some l }) with h | h <;>
      simp [setLocation, h]
  orientation e := by cases e <;> rfl
  extentOver e below := by
    cases e with
    | cell d =>
        rcases cell_updateCell_cases s c d (fun n => { n with location := some l }) with h | h <;>
          simp [setLocation, extentOver, h]
    | _ => rfl
  location e := by
    cases e with
    | cell d =>
        by_cases same : c = d
        · exact .inr (by rw [same])
        · exact .inl (congrArg CellNode.location (cell_updateCell_of_ne s _ same))
    | _ => exact .inl rfl
  located e placed := by
    cases e with
    | cell d =>
        rcases cell_updateCell_cases s c d (fun n => { n with location := some l }) with h | h
        · simpa [setLocation, location?, h] using placed
        · simp [setLocation, location?, h]
    | _ => exact placed

private theorem moves_updateVector (s : Store) (i : VectorId) (l : Location) :
    Moves (· = .vector i) s (s.setLocation (.vector i) l) where
  inStore := inStore_updateVector s i _
  children e := by
    cases e with
    | vector j =>
        rcases vector_updateVector_cases s i j (fun n => { n with attributes.location := some l })
          with h | h <;> simp [setLocation, updateAttributes, children, h]
    | _ => rfl
  merge _ := rfl
  orientation e := by
    cases e with
    | vector j =>
        rcases vector_updateVector_cases s i j (fun n => { n with attributes.location := some l })
          with h | h <;> simp [setLocation, updateAttributes, orientation?, h]
    | _ => rfl
  extentOver e below := by
    cases e with
    | vector j =>
        rcases vector_updateVector_cases s i j (fun n => { n with attributes.location := some l })
          with h | h <;> simp [setLocation, updateAttributes, extentOver, pendingHeader, h]
    | _ => rfl
  location e := by
    cases e with
    | vector j =>
        by_cases same : i = j
        · exact .inr (by rw [same])
        · exact .inl (congrArg (fun n => n.attributes.location) (vector_updateVector_of_ne s _ same))
    | _ => exact .inl rfl
  located e placed := by
    cases e with
    | vector j =>
        rcases vector_updateVector_cases s i j (fun n => { n with attributes.location := some l })
          with h | h
        · simpa [setLocation, updateAttributes, location?, attributes?, h] using placed
        · simp [setLocation, updateAttributes, location?, attributes?, h]
    | _ => exact placed

private theorem moves_updateFrame (s : Store) (i : FrameId) (l : Location) :
    Moves (· = .frame i) s (s.setLocation (.frame i) l) where
  inStore := inStore_updateFrame s i _
  children e := by
    cases e with
    | frame j =>
        rcases frame_updateFrame_cases s i j (fun n => { n with attributes.location := some l })
          with h | h <;> simp [setLocation, updateAttributes, children, h]
    | _ => rfl
  merge _ := rfl
  orientation e := by
    cases e with
    | frame j =>
        rcases frame_updateFrame_cases s i j (fun n => { n with attributes.location := some l })
          with h | h <;> simp [setLocation, updateAttributes, orientation?, h]
    | _ => rfl
  extentOver e below := by
    cases e with
    | frame j =>
        rcases frame_updateFrame_cases s i j (fun n => { n with attributes.location := some l })
          with h | h <;> simp [setLocation, updateAttributes, extentOver, h]
    | _ => rfl
  location e := by
    cases e with
    | frame j =>
        by_cases same : i = j
        · exact .inr (by rw [same])
        · exact .inl (congrArg (fun n => n.attributes.location) (frame_updateFrame_of_ne s _ same))
    | _ => exact .inl rfl
  located e placed := by
    cases e with
    | frame j =>
        rcases frame_updateFrame_cases s i j (fun n => { n with attributes.location := some l })
          with h | h
        · simpa [setLocation, updateAttributes, location?, attributes?, h] using placed
        · simp [setLocation, updateAttributes, location?, attributes?, h]
    | _ => exact placed

private theorem moves_updateStack (s : Store) (i : StackId) (l : Location) :
    Moves (· = .stack i) s (s.setLocation (.stack i) l) where
  inStore := inStore_updateStack s i _
  children e := by
    cases e with
    | stack j =>
        rcases stack_updateStack_cases s i j (fun n => { n with attributes.location := some l })
          with h | h <;> simp [setLocation, updateAttributes, children, h]
    | _ => rfl
  merge _ := rfl
  orientation e := by
    cases e with
    | stack j =>
        rcases stack_updateStack_cases s i j (fun n => { n with attributes.location := some l })
          with h | h <;> simp [setLocation, updateAttributes, orientation?, h]
    | _ => rfl
  extentOver e below := by
    cases e with
    | stack j =>
        rcases stack_updateStack_cases s i j (fun n => { n with attributes.location := some l })
          with h | h <;> simp [setLocation, updateAttributes, extentOver, h]
    | _ => rfl
  location e := by
    cases e with
    | stack j =>
        by_cases same : i = j
        · exact .inr (by rw [same])
        · exact .inl (congrArg (fun n => n.attributes.location) (stack_updateStack_of_ne s _ same))
    | _ => exact .inl rfl
  located e placed := by
    cases e with
    | stack j =>
        rcases stack_updateStack_cases s i j (fun n => { n with attributes.location := some l })
          with h | h
        · simpa [setLocation, updateAttributes, location?, attributes?, h] using placed
        · simp [setLocation, updateAttributes, location?, attributes?, h]
    | _ => exact placed

theorem moves_setLocation (s : Store) (e : Element) (l : Location) :
    Moves (· = e) s (s.setLocation e l) := by
  cases e with
  | cell c => exact moves_updateCell s c l
  | vector v => exact moves_updateVector s v l
  | frame f => exact moves_updateFrame s f l
  | stack k => exact moves_updateStack s k l
  | _ => exact .refl s

theorem location?_setLocation {e : Element} (he : s.InStore e) (solid : e.isSolid = true)
    (l : Location) : (s.setLocation e l).location? e = some l := by
  cases e with
  | cell c => exact congrArg CellNode.location (cell_updateCell_self s _ he)
  | vector v =>
      exact congrArg (fun n => n.attributes.location) (Table.get_update_self s.vectors
        (fun n : VectorNode => { n with attributes.location := some l }) he)
  | frame f =>
      exact congrArg (fun n => n.attributes.location) (Table.get_update_self s.frames
        (fun n : FrameNode => { n with attributes.location := some l }) he)
  | stack k =>
      exact congrArg (fun n => n.attributes.location) (Table.get_update_self s.groups
        (fun n : StackNode => { n with attributes.location := some l }) he)
  | _ => cases solid

/-! ## Placing a tree -/

theorem Moves.reach (h : Moves touched s t) {a b : Element} : Reach t a b ↔ Reach s a b :=
  ⟨h.toAlike.reach, h.toAlike.symm.reach⟩

section

variable {R : Store → Store → Prop} (h : Chains R)

include h

theorem placeChildren_relates {place : Store → Element → Location → Store}
    (each : ∀ s e l, R s (place s e l)) (o : Orientation) (origin : Location) (offset : Nat)
    (s : Store) (children : List Element) : R s (placeChildren place o origin offset s children) := by
  induction children generalizing s offset with
  | nil => exact h.refl s
  | cons child rest ih => exact h.trans (each s child _) (ih _ _)

/-- What holds between a store and the one in which an element gets its location holds over the
placing of elements. -/
theorem placeWithin_relates (each : ∀ s e l, R s (s.setLocation e l)) (fuel : Nat) (s : Store)
    (e : Element) (l : Location) : R s (placeWithin fuel s e l) := by
  induction fuel generalizing s e l with
  | zero => exact h.refl s
  | succ fuel ih =>
      have own := each s e l
      simp only [placeWithin]
      split
      case h_1 o _ => exact h.trans own (placeChildren_relates h ih o l 0 _ _)
      case h_2 => exact own

end

/-- Placing elements changes nothing that giving one of them its location leaves as it is. -/
theorem placeWithin_keeps {τ : Type} {part : Store → τ}
    (each : ∀ s e l, part (s.setLocation e l) = part s) (fuel : Nat) (s : Store) (e : Element)
    (l : Location) : part (placeWithin fuel s e l) = part s := by
  have chains : Chains fun s t : Store => part t = part s := chains_part
  exact placeWithin_relates chains each fuel s e l

theorem moves_placeChildren {place : Store → Element → Location → Store}
    (moves : ∀ s e l, Moves (Reach s e) s (place s e l)) (origin : Location) (offset : Nat)
    (s : Store) (children : List Element) :
    Moves (fun x => ∃ child ∈ children, Reach s child x) s
      (placeChildren place o origin offset s children) := by
  induction children generalizing s offset with
  | nil => exact .refl s
  | cons child rest ih =>
      have first := moves s child (along o origin offset)
      refine (first.imp fun x reach => ⟨child, by simp, reach⟩).trans ((ih _ _).imp ?_)
      rintro x ⟨later, hl, reach⟩
      exact ⟨later, List.mem_cons_of_mem _ hl, first.reach.1 reach⟩

theorem moves_placeWithin (fuel : Nat) (s : Store) (e : Element) (l : Location) :
    Moves (Reach s e) s (placeWithin fuel s e l) := by
  induction fuel generalizing s e l with
  | zero => exact .refl s
  | succ fuel ih =>
      have first := moves_setLocation s e l
      have own : Moves (Reach s e) s (s.setLocation e l) := first.imp fun x same => same ▸ .root
      simp only [placeWithin]
      split
      case h_1 o _ =>
        refine own.trans ((moves_placeChildren ih l 0 _ _).imp ?_)
        rintro x ⟨child, below, reach⟩
        rw [first.children] at below
        exact (reach_of_child below).trans (first.reach.1 reach)
      case h_2 => exact own

theorem located_placeChildren {place : Store → Element → Location → Store}
    (moves : ∀ s e l, Moves (Reach s e) s (place s e l)) {P : Element → Prop}
    (each : ∀ s', Alike s s' → ∀ e l, P e → ∀ x, x.isSolid = true → Reach s e x →
      ((place s' e l).location? x).isSome)
    (origin : Location) (offset : Nat) (children : List Element) (all : ∀ e ∈ children, P e)
    {u : Store} (alike : Alike s u) :
    ∀ child ∈ children, ∀ x, x.isSolid = true → Reach s child x →
      ((placeChildren place o origin offset u children).location? x).isSome := by
  induction children generalizing u offset with
  | nil => simp
  | cons child rest ih =>
      have first := moves u child (along o origin offset)
      have others := moves_placeChildren (o := o) moves origin
        (offset + (place u child (along o origin offset)).advance o child)
        (place u child (along o origin offset)) rest
      intro c hc x solid reach
      rcases List.mem_cons.1 hc with rfl | hc
      · exact others.located x (each u alike c _ (all c (by simp)) x solid reach)
      · exact ih _ (fun e he => all e (List.mem_cons_of_mem _ he)) (alike.trans first.toAlike) c hc x
          solid reach

/-- With enough fuel everything below the element gets a location. -/
theorem located_placeWithin {rank : Element → Nat} (isRank : s.IsRank rank) (wf : s.WellFormed)
    (fuel : Nat) {e : Element} (enough : rank e ≤ fuel) (he : s.InStore e) {u : Store}
    (alike : Alike s u) (l : Location) : ∀ x, x.isSolid = true → Reach s e x →
      ((placeWithin fuel u e l).location? x).isSome := by
  induction fuel generalizing e u l with
  | zero =>
      have := isRank.positive e
      omega
  | succ fuel ih =>
      intro x solid reach
      have inside := (alike.inStore e).2 he
      have first := moves_setLocation u e l
      have self : e.isSolid = true → ((u.setLocation e l).location? e).isSome := by
        intro solid
        rw [location?_setLocation inside solid]
        rfl
      simp only [placeWithin]
      split
      case h_1 o _ =>
        have children := (first.children e).trans (alike.children e)
        rcases reach.eq_or_child with rfl | ⟨child, below, reach⟩
        · exact (moves_placeChildren (moves_placeWithin fuel) l 0 _ _).located x (self solid)
        · rw [children]
          refine located_placeChildren (P := fun c => rank c ≤ fuel ∧ s.InStore c)
            (moves_placeWithin fuel) ?_ l 0 _ ?_ (alike.trans first.toAlike) child below x solid
            reach
          · exact fun s' alike' c l' hc => ih hc.1 hc.2 alike' l'
          · exact fun c hc => ⟨isRank.child_le hc enough, wf.closed e c hc⟩
      case h_2 none =>
        rcases reach.eq_or_child with rfl | ⟨child, below, -⟩
        · exact self solid
        · obtain ⟨o, some⟩ := orientation?_of_isContainer
            (s := u.setLocation e l) (isContainer_of_child below)
          rw [some] at none
          cases none

/-! ## Following siblings -/

/-- How far a list of elements extends along an axis. -/
def lengthAlong (s : Store) (o : Orientation) (l : List Element) : Nat :=
  Number.total (l.map fun e => o.along (s.extent e))

/-- Whether the children with cells below them stand one behind the other. -/
def Arranged (s : Store) (e : Element) : Prop :=
  ∀ o before child after, s.orientation? e = some o → s.children e = before ++ child :: after →
    s.leaves child ≠ [] →
      s.location? child = (s.location? e).map (along o · (s.lengthAlong o before))

theorem Acyclic.leaves_subset (h : s.Acyclic) {a b : Element} (reach : Reach s a b) :
    s.leaves b ⊆ s.leaves a :=
  fun _ hc => h.mem_leaves.2 (reach.trans (h.mem_leaves.1 hc))

theorem leaves_ne_nil_iff {e : Element} : s.leaves e ≠ [] ↔ ∃ c, c ∈ s.leaves e := by
  rw [ne_eq, List.eq_nil_iff_forall_not_mem, not_forall_not]

theorem Acyclic.leaves_ne_nil (h : s.Acyclic) {a b : Element} (reach : Reach s a b)
    (bearing : s.leaves b ≠ []) : s.leaves a ≠ [] := by
  obtain ⟨c, hc⟩ := leaves_ne_nil_iff.1 bearing
  exact leaves_ne_nil_iff.2 ⟨c, h.leaves_subset reach hc⟩

theorem Moves.lengthAlong_eq (h : Moves touched s t) (acyclic : s.Acyclic) (l : List Element) :
    t.lengthAlong o l = s.lengthAlong o l := by
  unfold lengthAlong
  congr 1
  exact List.map_congr_left fun e _ => by rw [h.extent_eq acyclic]

/-- Whether the children that count stand one behind the other. -/
def Lined (counts : Element → Prop) (s : Store) (e : Element) : Prop :=
  ∀ o before child after, s.orientation? e = some o → s.children e = before ++ child :: after →
    counts child →
      s.location? child = (s.location? e).map (along o · (s.lengthAlong o before))

/-- Whether what counts below an element is there once only, and counts with all that is above it. -/
structure Distinct (s : Store) (counts : Element → Prop) (e : Element) : Prop where
  solid : ∀ x, counts x → x.isSolid = true
  above : ∀ a b, Reach s a b → counts b → counts a
  apart : ∀ x, Reach s e x →
    (s.children x).Pairwise fun a b => ∀ y, counts y → Reach s a y → ¬Reach s b y

variable {counts : Element → Prop} {e : Element}

theorem Distinct.below (h : s.Distinct counts e) {x : Element} (reach : Reach s e x) :
    s.Distinct counts x :=
  ⟨h.solid, h.above, fun y reach' => h.apart y (reach.trans reach')⟩

theorem Lined.later (h : Lined counts s e) (acyclic : s.Acyclic)
    (above : ∀ a b, Reach s a b → counts b → counts a) (moves : Moves touched s t)
    (still : ∀ x, Reach s e x → counts x → t.location? x = s.location? x) :
    Lined counts t e := by
  intro o before child after ho split here
  rw [moves.orientation] at ho
  rw [moves.children] at split
  have below : child ∈ s.children e := by simp [split]
  rw [still child (reach_of_child below) here, still e .root (above e child (reach_of_child below) here),
    moves.lengthAlong_eq acyclic]
  exact h o before child after ho split here

/-- What placing achieves below one element of a tree, for all that counts. -/
structure Seats (counts : Element → Prop) (s t : Store) (e : Element) (l : Location) : Prop where
  here : counts e → t.location? e = some l
  below : ∀ x, Reach s e x → Lined counts t x

/-- Whether at most locations have changed. -/
abbrev Moved (s t : Store) : Prop :=
  Moves (fun _ => True) s t

theorem seats_placeChildren {place : Store → Element → Location → Store}
    (moves : ∀ s e l, Moves (Reach s e) s (place s e l)) (acyclic : s.Acyclic)
    (above : ∀ a b, Reach s a b → counts b → counts a) {P : Element → Prop}
    (each : ∀ u, Moved s u → ∀ e l, P e → Seats counts s (place u e l) e l)
    (origin : Location) (offset : Nat) (children : List Element) (all : ∀ e ∈ children, P e)
    (solid : ∀ g, .gap g ∉ children)
    (apart : children.Pairwise fun a b => ∀ y, counts y → Reach s a y → ¬Reach s b y)
    {u : Store} (same : Moved s u) :
    (∀ before child after, children = before ++ child :: after → counts child →
      (placeChildren place o origin offset u children).location? child =
        some (along o origin (offset + s.lengthAlong o before))) ∧
    ∀ child ∈ children, ∀ x, Reach s child x →
      Lined counts (placeChildren place o origin offset u children) x := by
  induction children generalizing u offset with
  | nil => simp
  | cons child rest ih =>
      obtain ⟨front, apart⟩ := List.pairwise_cons.1 apart
      have first := moves u child (along o origin offset)
      have acyclicU := same.toAlike.acyclic acyclic
      have seats := each u same child (along o origin offset) (all child (by simp))
      have step : (place u child (along o origin offset)).advance o child =
          o.along (s.extent child) := by
        rw [← same.extent_eq acyclic child, ← first.extent_eq acyclicU child]
        cases child with
        | gap g => exact absurd (by simp) (solid g)
        | _ => rfl
      have others := moves_placeChildren (o := o) moves origin
        (offset + (place u child (along o origin offset)).advance o child)
        (place u child (along o origin offset)) rest
      have next : Moved s (place u child (along o origin offset)) :=
        same.trans (first.imp fun _ _ => trivial)
      obtain ⟨places, lined⟩ := ih
        (offset + (place u child (along o origin offset)).advance o child)
        (fun e he => all e (List.mem_cons_of_mem _ he))
        (fun g hg => solid g (List.mem_cons_of_mem _ hg)) apart next
      -- What counts below this child is not below a later one.
      have still : ∀ x, Reach s child x → counts x →
          (placeChildren place o origin offset u (child :: rest)).location? x =
            (place u child (along o origin offset)).location? x := by
        intro x reach here
        rcases others.location x with same' | ⟨later, hl, reach'⟩
        · exact same'
        · exact absurd (next.reach.1 reach') (front later hl x here reach)
      refine ⟨fun before c after split here => ?_, fun c hc x reach => ?_⟩
      · cases before with
        | nil =>
            obtain ⟨rfl, rfl⟩ := List.cons.inj split
            rw [still child .root here]
            exact (seats.here here).trans (by simp [lengthAlong])
        | cons b before =>
            obtain ⟨rfl, rfl⟩ := List.cons.inj split
            refine (places before c after rfl here).trans ?_
            simp [lengthAlong, step, Nat.add_assoc]
      · rcases List.mem_cons.1 hc with rfl | hc
        · refine (seats.below x reach).later (next.toAlike.acyclic acyclic)
            (fun a b reach' => above a b (next.reach.1 reach')) others ?_
          intro y reach' here
          exact still y (reach.trans (next.reach.1 reach')) here
        · exact lined c hc x reach

theorem seats_placeWithin {rank : Element → Nat} (isRank : s.IsRank rank) (wf : s.WellFormed)
    (fuel : Nat) {e : Element} (enough : rank e ≤ fuel) (he : s.InStore e)
    (free : ∀ x, Reach s e x → GapFree s x) (distinct : s.Distinct counts e) {u : Store}
    (same : Moved s u) (l : Location) : Seats counts s (placeWithin fuel u e l) e l := by
  induction fuel generalizing e u l with
  | zero =>
      have := isRank.positive e
      omega
  | succ fuel ih =>
      have first := moves_setLocation u e l
      have next : Moved s (u.setLocation e l) := same.trans (first.imp fun _ _ => trivial)
      have own : counts e → (u.setLocation e l).location? e = some l := fun here =>
        location?_setLocation ((same.inStore e).2 he) (distinct.solid e here) l
      simp only [placeWithin]
      split
      case h_1 o ho =>
        rw [next.children e]
        have final := next.trans ((moves_placeChildren (o := o) (moves_placeWithin fuel) l 0
          (u.setLocation e l) (s.children e)).imp fun _ _ => trivial)
        have unmoved : (placeChildren (placeWithin fuel) o l 0 (u.setLocation e l)
            (s.children e)).location? e = (u.setLocation e l).location? e := by
          rcases (moves_placeChildren (o := o) (moves_placeWithin fuel) l 0
            (u.setLocation e l) (s.children e)).location e with same' | ⟨child, below, reach⟩
          · exact same'
          · exact absurd (next.reach.1 reach) (wf.acyclic e child below)
        obtain ⟨places, lined⟩ := seats_placeChildren (o := o)
          (P := fun c => rank c ≤ fuel ∧ s.InStore c ∧ Reach s e c) (moves_placeWithin fuel)
          wf.acyclic distinct.above
          (fun u' moved c l' hc => ih hc.1 hc.2.1 (fun x reach => free x (hc.2.2.trans reach))
            (distinct.below hc.2.2) moved l')
          l 0 (s.children e)
          (fun c hc => ⟨isRank.child_le hc enough, wf.closed e c hc, reach_of_child hc⟩)
          (free e .root) (distinct.apart e .root) next
        refine ⟨fun here => unmoved.trans (own here), fun x reach => ?_⟩
        rcases reach.eq_or_child with rfl | ⟨child, hchild, reach⟩
        · intro o' before child after ho' split here
          rw [final.children] at split
          have axis : o' = o := by
            rw [final.orientation, ← next.orientation, ho] at ho'
            exact (Option.some.inj ho').symm
          have parent : counts x :=
            distinct.above x child (reach_of_child (by simp [split])) here
          rw [axis, unmoved, own parent, places before child after split here,
            final.lengthAlong_eq wf.acyclic, Option.map_some, Nat.zero_add]
        · exact lined child hchild x reach
      case h_2 none =>
        refine ⟨own, fun x reach => ?_⟩
        have bare : s.children e = [] := by
          cases hc : e.isContainer with
          | false => cases e <;> first | rfl | cases hc
          | true =>
              obtain ⟨o, some⟩ := orientation?_of_isContainer (s := u.setLocation e l) hc
              rw [some] at none
              cases none
        rcases reach.eq_or_child with rfl | ⟨child, below, -⟩
        · intro o before child after _ split
          rw [next.children, bare] at split
          simp at split
        · rw [bare] at below
          cases below

/-! ## Cells that are there once -/

/-- What placing achieves below one element of a tree. -/
structure Settled (s t : Store) (e : Element) (l : Location) : Prop where
  here : s.leaves e ≠ [] → t.location? e = some l
  below : ∀ x, Reach s e x → Arranged t x

theorem isSolid_of_bearing (acyclic : s.Acyclic) {e : Element} (bearing : s.leaves e ≠ []) :
    e.isSolid = true := by
  cases solid : e.isSolid with
  | true => rfl
  | false =>
      refine absurd ?_ bearing
      rw [acyclic.leaves_eq, (bare_of_not_isSolid solid).1]
      cases e <;> first | rfl | cases solid

/-- Where no cell is twice, neither is what has cells below it. -/
theorem distinct_of_leaves (acyclic : s.Acyclic) {e : Element} (once : (s.leaves e).Nodup) :
    s.Distinct (s.leaves · ≠ []) e where
  solid _ := isSolid_of_bearing acyclic
  above _ _ := acyclic.leaves_ne_nil
  apart x reach := by
    have split : ∀ x, Reach s e x → ((s.children x).flatMap s.leaves).Nodup := by
      intro x reach
      induction reach with
      | root =>
          rw [acyclic.leaves_eq] at once
          exact once.of_append_right
      | child _ below ih =>
          have own := (List.nodup_flatMap.1 ih).1 _ below
          rw [acyclic.leaves_eq] at own
          exact own.of_append_right
    refine (List.nodup_flatMap.1 (split x reach)).2.imp fun {a b} disjoint y bearing above above' => ?_
    obtain ⟨c, hc⟩ := leaves_ne_nil_iff.1 bearing
    exact disjoint (acyclic.leaves_subset above hc) (acyclic.leaves_subset above' hc)

theorem Arranged.later {e : Element} (h : Arranged s e) (acyclic : s.Acyclic)
    (moves : Moves touched s t)
    (still : ∀ x, Reach s e x → s.leaves x ≠ [] → t.location? x = s.location? x) :
    Arranged t e := by
  have lined : Lined (s.leaves · ≠ []) t e :=
    Lined.later h acyclic (fun _ _ => acyclic.leaves_ne_nil) moves still
  intro o before child after ho split bearing
  rw [moves.toAlike.leaves_eq acyclic] at bearing
  exact lined o before child after ho split bearing

theorem settled_placeWithin {rank : Element → Nat} (isRank : s.IsRank rank) (wf : s.WellFormed)
    (fuel : Nat) {e : Element} (enough : rank e ≤ fuel) (he : s.InStore e)
    (free : ∀ x, Reach s e x → GapFree s x) (once : (s.leaves e).Nodup) {u : Store}
    (same : Moved s u) (l : Location) : Settled s (placeWithin fuel u e l) e l := by
  have seats := seats_placeWithin isRank wf fuel enough he free
    (distinct_of_leaves wf.acyclic once) same l
  have alike := same.toAlike.trans (moves_placeWithin fuel u e l).toAlike
  refine ⟨seats.here, fun x reach o before child after ho split bearing => ?_⟩
  rw [alike.leaves_eq wf.acyclic] at bearing
  exact seats.below x reach o before child after ho split bearing

/-- What placing a tree achieves: everything below the root has a location, and if no cell is below
it twice and no gap is left, children stand one behind the other. -/
theorem place_spec (wf : s.WellFormed) {e : Element} (he : s.InStore e) (l : Location) :
    Grows [e] s (s.place e l) ∧
      (∀ x, x.isSolid = true → Reach s e x → ((s.place e l).location? x).isSome) ∧
      ((s.leaves e).Nodup → (∀ x, Reach s e x → GapFree s x) →
        Settled s (s.place e l) e l) := by
  obtain ⟨rank, isRank⟩ := wf.acyclic.exists_rank
  refine ⟨(moves_placeWithin _ s e l).grows wf fun x reach => ⟨e, by simp, reach⟩, ?_, ?_⟩
  · exact located_placeWithin isRank wf _ (isRank.bounded e) he (.refl s) l
  · intro once free
    exact settled_placeWithin isRank wf _ (isRank.bounded e) he free once (.refl s) l

end Spreadsheet.Store
