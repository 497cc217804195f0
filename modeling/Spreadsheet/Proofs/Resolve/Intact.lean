import Spreadsheet.Proofs.Resolve.History

/-!
# Only producers are replaced

Resolving leaves every cell, gap and container as it is, in the same place among its siblings.  A
producer that is gone has given way to elements that are new down to their cells, and the trees under
the roots are still trees.  That holds in every build on the way, so also where resolving fails.
-/

namespace Spreadsheet

open Store

namespace Store

variable {s t u : Store} {e : Element} {l l' : List Element}

/-! ## New trees -/

theorem Spares.trans (first : Spares s t) (second : Spares t u) : Spares s u where
  held e he := second.held e (first.held e he)
  fresh e child new below := by
    by_cases there : t.InStore e
    · rw [second.children there] at below
      exact first.fresh e child new below
    · exact fun old => second.fresh e child there below (first.held child old)
  left e he := (first.left e he).trans (second.left e (first.held e he))

theorem Spares.inStore_of_reach (h : Spares s t) (wf : s.WellFormed) {a x : Element}
    (old : s.InStore a) (reach : Reach t a x) : s.InStore x := by
  induction reach with
  | root => exact old
  | child _ below ih =>
      rw [h.children ih] at below
      exact wf.closed _ _ below

/-- Whether some elements have been made since an earlier store, as trees in which no node occurs
twice. -/
structure Plants (s t : Store) (l : List Element) : Prop where
  spares : Spares s t
  wf : t.WellFormed
  new : ∀ z ∈ l, ¬s.InStore z
  inStore : ∀ z ∈ l, t.InStore z
  forest : t.Forest l

theorem Plants.nil (wf : s.WellFormed) : Plants s s [] :=
  ⟨.refl s, wf, by simp, by simp, .nil s⟩

theorem Plants.later (h : Plants s t l) (spares : Spares s u) (wf : u.WellFormed)
    (held : ∀ e, t.InStore e → u.InStore e)
    (same : ∀ e, t.InStore e → u.children e = t.children e) : Plants s u l :=
  ⟨spares, wf, h.new, fun z hz => held z (h.inStore z hz),
    h.forest.later h.wf wf.acyclic h.inStore same⟩

theorem Plants.alike (h : Plants s t l) (spares : Spares s u) (alike : Alike t u) : Plants s u l :=
  h.later spares (alike.wellFormed h.wf) (fun e => (alike.inStore e).2) fun e _ => alike.children e

theorem Plants.append (h : Plants s t l) (h' : Plants t u l') : Plants s u (l ++ l') := by
  have first := h.later (h.spares.trans h'.spares) h'.wf h'.spares.held fun e => h'.spares.children
  refine ⟨first.spares, h'.wf, fun z hz => ?_, fun z hz => ?_, ?_⟩
  · rcases List.mem_append.1 hz with hz | hz
    · exact h.new z hz
    · exact fun old => h'.new z hz (h.spares.held z old)
  · exact (List.mem_append.1 hz).elim (first.inStore z) (h'.inStore z)
  · apply first.forest.append h'.wf.acyclic h'.forest (s := t)
    · exact fun e he x => h'.spares.inStore_of_reach h.wf (h.inStore e he)
    · exact fun e he x => h'.spares.not_inStore_of_reach (h'.new e he)

/-- Some of the children of a new element. -/
theorem Plants.part (h : Plants s t [e]) (part : l.Sublist (t.children e)) : Plants s t l where
  spares := h.spares
  wf := h.wf
  new z hz := h.spares.fresh e z (h.new e (by simp)) (part.subset hz)
  inStore z hz := h.wf.closed e z (part.subset hz)
  forest := (h.forest.children h.wf.acyclic).sublist part

/-- A new element with new trees as children. -/
theorem Plants.node (h : Plants s t l) (spares : Spares s u) (g : Grows [] t u)
    (inside : u.InStore e) (new : ¬t.InStore e) (children : u.children e = l) : Plants s u [e] := by
  have same : ∀ x, t.InStore x → u.children x = t.children x := by
    intro x hx
    rcases g.kept x hx with same | ⟨root, hroot, -⟩
    · exact same.1
    · cases hroot
  have below := (h.later spares g.wf g.held same).forest
  refine ⟨spares, g.wf, fun z hz => ?_, fun z hz => ?_, ?_⟩
  · rw [List.mem_singleton.1 hz]
    exact fun old => new (h.spares.held e old)
  · rw [List.mem_singleton.1 hz]
    exact inside
  · rw [← children] at below
    exact below.container g.wf.acyclic

theorem map_asVector?_sublist (l : List Element) :
    ((l.filterMap asVector?).map Element.vector).Sublist l := by
  induction l with
  | nil => exact .slnil
  | cons e l ih =>
      cases e with
      | vector v => exact ih.cons_cons (.vector v)
      | _ => exact ih.cons _

end Store

namespace StoreM

variable {α β : Type} {s t m : Store}

theorem plants_mapM {toElement : β → Element} {f : α → StoreM β} {l : List α} {bs : List β}
    (each : ∀ a s b t, s.WellFormed → Leads (f a) s b t → Plants s t [toElement b])
    (wf : s.WellFormed) (h : Leads (l.mapM f) s bs t) : Plants s t (bs.map toElement) := by
  induction l generalizing s bs with
  | nil =>
      obtain ⟨rfl, rfl⟩ := leads_pure.1 (by simpa using h)
      exact .nil wf
  | cons a l ih =>
      rw [List.mapM_cons, leads_bind] at h
      obtain ⟨b, m, first, h⟩ := h
      obtain ⟨rest, m', others, h⟩ := leads_bind.1 h
      obtain ⟨rfl, rfl⟩ := leads_pure.1 h
      have here := each a s b m wf first
      exact here.append (ih here.wf others)

theorem newCell_plants (wf : s.WellFormed) {n : CellNode}
    (merge : 1 ≤ n.merge.rows ∧ 1 ≤ n.merge.cols) {c : CellId} (h : Leads (newCell n) s c t) :
    Plants s t [.cell c] := by
  obtain ⟨spares, new⟩ := newCell_making n s c t (.refl s) h
  obtain ⟨g, -, fresh⟩ := newCell_makes wf merge h
  exact (Plants.nil wf).node spares g fresh.inStore new rfl

theorem newVector_plants {n : VectorNode} (h : Plants s m n.children) {v : VectorId}
    (made : Leads (newVector n) m v t) : Plants s t [.vector v] := by
  obtain ⟨spares, -⟩ := newVector_making h.new m v t h.spares made
  obtain ⟨g, -, inside, new, children⟩ :=
    newVector_makes h.wf (fun g hg => h.new _ hg trivial) h.inStore made
  exact h.node spares g inside new children

theorem newFrame_plants {n : FrameNode} (h : Plants s m n.children) {f : FrameId}
    (made : Leads (newFrame n) m f t) : Plants s t [.frame f] := by
  obtain ⟨spares, -⟩ := newFrame_making h.new m f t h.spares made
  obtain ⟨g, -, inside, new, children⟩ :=
    newFrame_makes h.wf (fun g hg => h.new _ hg trivial) h.inStore made
  exact h.node spares g inside new children

theorem newFormulaCell_plants (wf : s.WellFormed) {f : Formula} {c : CellId}
    (h : Leads (newFormulaCell f) s c t) : Plants s t [.cell c] := by
  cases f with
  | literal value => exact newCell_plants wf ⟨Nat.le_refl 1, Nat.le_refl 1⟩ h
  | _ => exact newCell_plants wf ⟨Nat.le_refl 1, Nat.le_refl 1⟩ h

theorem vectorOf_plants (wf : s.WellFormed) {series : Series} {v : VectorId}
    (h : Leads (vectorOf series) s v t) : Plants s t [.vector v] := by
  obtain ⟨cells, m, first, second⟩ := leads_bind.1 h
  exact newVector_plants (plants_mapM (fun _ _ _ _ wf => newFormulaCell_plants wf) wf first) second

theorem elementOf_plants (wf : s.WellFormed) {grid : Grid} {e : Element}
    (h : Leads (elementOf grid) s e t) : Plants s t [e] := by
  cases grid with
  | scalar f =>
      obtain ⟨c, _, made, h⟩ := leads_bind.1 h
      obtain ⟨rfl, rfl⟩ := leads_pure.1 h
      exact newFormulaCell_plants wf made
  | series items =>
      obtain ⟨v, _, made, h⟩ := leads_bind.1 h
      obtain ⟨rfl, rfl⟩ := leads_pure.1 h
      exact vectorOf_plants wf made
  | table vectors o =>
      obtain ⟨ids, m, first, h⟩ := leads_bind.1 h
      obtain ⟨f, _, second, h⟩ := leads_bind.1 h
      obtain ⟨rfl, rfl⟩ := leads_pure.1 h
      exact newFrame_plants (plants_mapM (fun _ _ _ _ wf => vectorOf_plants wf) wf first) second

theorem copyCell_plants (wf : s.WellFormed) {c d : CellId} (h : Leads (copyCell c) s d t) :
    Plants s t [.cell d] := by
  obtain ⟨_, _, got, made⟩ := leads_bind.1 h
  obtain ⟨rfl, rfl⟩ := leads_get.1 got
  apply newCell_plants wf _ made
  exact wf.merges c

theorem copyVector_plants (wf : s.WellFormed) {v w : VectorId} (h : Leads (copyVector v) s w t) :
    Plants s t [.vector w] := by
  simp only [copyVector, leads_bind, leads_get] at h
  obtain ⟨_, _, ⟨rfl, rfl⟩, _, _, ⟨rfl, rfl⟩, cells, m, first, second⟩ := h
  exact newVector_plants (plants_mapM (fun _ _ _ _ wf => copyCell_plants wf) wf first) second

theorem copyFrame_plants (wf : s.WellFormed) {f f' : FrameId} (h : Leads (copyFrame f) s f' t) :
    Plants s t [.frame f'] := by
  simp only [copyFrame, leads_bind, leads_get] at h
  obtain ⟨_, _, ⟨rfl, rfl⟩, _, _, ⟨rfl, rfl⟩, vectors, m, first, second⟩ := h
  exact newFrame_plants (plants_mapM (fun _ _ _ _ wf => copyVector_plants wf) wf first) second

theorem promote_plants {c : CellId} {o : Orientation} (h : Plants s m [.cell c]) {v : VectorId}
    (made : Leads (promote c o) m v t) : Plants s t [.vector v] := by
  obtain ⟨_, _, got, made⟩ := leads_bind.1 made
  obtain ⟨rfl, rfl⟩ := leads_get.1 got
  exact newVector_plants h made

end StoreM

namespace BuildM

variable {b m b' : Build} {s : Store} {container child produced : Element}
  {before rest spliced : List Element}

theorem elementFor_plants {v : Value} {reference : Bool} (wf : b.store.WellFormed)
    (run : Runs (elementFor v reference) b produced m) : Plants b.store m.store [produced] := by
  have copied : ∀ {ι : Type} {copy : StoreM ι} {toElement : ι → Element},
      (∀ i t, Leads copy b.store i t → Plants b.store t [toElement i]) →
      Runs (do return toElement (← liftStore copy)) b produced m →
      Plants b.store m.store [produced] := by
    intro ι copy toElement plants run
    obtain ⟨i, m', made, run⟩ := runs_bind.1 run
    obtain ⟨rfl, rfl⟩ := runs_pure.1 run
    obtain ⟨t, led, rfl⟩ := runs_liftStore.1 made
    exact plants i t led
  obtain ⟨_, _, got, run⟩ := runs_bind.1 run
  obtain ⟨rfl, rfl⟩ := runs_get.1 got
  split at run
  · obtain ⟨t, led, rfl⟩ := runs_liftStore.1 run
    exact StoreM.elementOf_plants wf led
  · exact absurd run not_runs_throw
  · exact copied (fun _ _ => StoreM.copyCell_plants wf) run
  · exact copied (fun _ _ => StoreM.copyVector_plants wf) run
  · exact copied (fun _ _ => StoreM.copyFrame_plants wf) run
  · obtain ⟨g, m', evaluated, made⟩ := runs_bind.1 run
    obtain rfl : m' = b := Keeps.of_runs (ofExcept_keeps _ : Keeps id (ofExcept _)) evaluated
    obtain ⟨t, led, rfl⟩ := runs_liftStore.1 made
    exact StoreM.elementOf_plants wf led

theorem evaluate_plants (ready : b.ready child = true) (wf : b.store.WellFormed)
    (run : Runs (evaluate container child) b produced m) : Plants b.store m.store [produced] := by
  have declared : ∀ {x : Except SheetError Value} {reference : Bool} {d : Declared}, Runs (do
      let element ← elementFor (← ofExcept x) reference
      applyDeclared d element
      return element) b produced m → Plants b.store m.store [produced] := by
    intro x reference d run
    obtain ⟨v, m', made, taken⟩ := runs_produced run
    have plants := elementFor_plants wf made
    obtain ⟨spares, -⟩ :=
      (applyDeclared_sparing d (plants.new produced (by simp)) plants.spares).of_runs taken
    exact plants.alike spares (applyDeclared_ids taken).1
  cases child with
  | expression e =>
      obtain ⟨_, _, got, evaluated⟩ := runs_bind.1 run
      obtain ⟨rfl, rfl⟩ := runs_get.1 got
      exact declared evaluated
  | call c =>
      obtain ⟨_, _, got, evaluated⟩ := runs_bind.1 run
      obtain ⟨rfl, rfl⟩ := runs_get.1 got
      exact declared evaluated
  | _ => cases ready

theorem fit_plants (h : Plants s b.store [produced])
    (run : Runs (fit container produced) b spliced m) : Plants s m.store spliced := by
  obtain ⟨spares, -⟩ := (fit_sparing (h.new produced (by simp)) h.spares).of_runs run
  rcases runs_fit run with ⟨rfl, rfl⟩ | ⟨c, o, v, rfl, rfl, made⟩ | ⟨v, w, -, rfl, rfl, rfl⟩ |
    ⟨o, vectors, turned, which⟩
  · exact h
  · obtain ⟨t, led, rfl⟩ := runs_liftStore.1 made
    exact StoreM.promote_plants h led
  · exact h.part (List.drop_sublist _ _)
  · obtain ⟨rfl, rfl⟩ := runs_turnVectors.1 turned
    have alike := alike_turned o vectors b.store
    rcases which with ⟨v, rfl, rfl⟩ | ⟨f, g, -, rfl, rfl⟩
    · exact h.alike spares alike
    · exact (h.part (map_asVector?_sublist _)).alike spares alike

end BuildM

/-! ## What is kept -/

namespace Store

variable {s t u : Store} {e : Element} {l l' l'' : List Element}

/-- Whether a node is the same in two stores, apart from its children and the keys that are bound. -/
def Intact (s t : Store) : Element → Prop
  | .cell c => t.cell c = s.cell c
  | .vector v => t.vector v = { s.vector v with children := (t.vector v).children }
  | .frame f => t.frame f = { s.frame f with children := (t.frame f).children }
  | .stack k => t.stack k = { s.stack k with children := (t.stack k).children }
  | .gap _ => True
  | .expression x => t.expression x = { s.expression x with bound := (t.expression x).bound }
  | .call c => t.call c = s.call c

theorem Left.intact (h : Left s t e) : Intact s t e := by
  cases e with
  | gap g => trivial
  | cell c => exact h
  | call c => exact h
  | vector v => rw [Intact, show t.vector v = s.vector v from h]
  | frame f => rw [Intact, show t.frame f = s.frame f from h]
  | stack k => rw [Intact, show t.stack k = s.stack k from h]
  | expression x => rw [Intact, show t.expression x = s.expression x from h]

theorem Intact.trans (first : Intact s t e) (second : Intact t u e) : Intact s u e := by
  cases e with
  | gap g => trivial
  | cell c => exact Eq.trans second first
  | call c => exact Eq.trans second first
  | vector v => rw [Intact, show u.vector v = _ from second, show t.vector v = _ from first]
  | frame f => rw [Intact, show u.frame f = _ from second, show t.frame f = _ from first]
  | stack k => rw [Intact, show u.stack k = _ from second, show t.stack k = _ from first]
  | expression x => rw [Intact, show u.expression x = _ from second, show t.expression x = _ from first]

theorem intact_setChildren (s : Store) (x e : Element) (l : List Element) :
    Intact s (s.setChildren x l) e := by
  by_cases same : e = x
  · subst same
    cases e with
    | vector v =>
        rcases vector_updateVector_cases s v v (fun n => { n with children := l }) with kept | new
        · exact Left.intact (e := .vector v) kept
        · rw [Intact, setChildren, new]
    | frame f =>
        rcases frame_updateFrame_cases s f f (fun n => { n with children := l }) with kept | new
        · exact Left.intact (e := .frame f) kept
        · rw [Intact, setChildren, new]
    | stack k =>
        rcases stack_updateStack_cases s k k (fun n => { n with children := l }) with kept | new
        · exact Left.intact (e := .stack k) kept
        · rw [Intact, setChildren, new]
    | _ => exact (Left.refl s _).intact
  · cases x with
    | vector v => exact (left_updateVector s _ same).intact
    | frame f => exact (left_updateFrame s _ same).intact
    | stack k => exact (left_updateStack s _ same).intact
    | _ => exact (Left.refl s e).intact

/-- Whether a list of children comes from another by putting new elements, any number of them, in the
place of some producers. -/
inductive Substitutes (s : Store) : List Element → List Element → Prop
  | nil : Substitutes s [] []
  | kept {e : Element} {l l' : List Element} (others : Substitutes s l l') :
      Substitutes s (e :: l) (e :: l')
  | replaced {e : Element} {made l l' : List Element} (producer : isProducer e = true)
      (new : ∀ z ∈ made, ¬s.InStore z) (others : Substitutes s l l') :
      Substitutes s (e :: l) (made ++ l')

theorem Substitutes.refl (s : Store) (l : List Element) : Substitutes s l l := by
  induction l with
  | nil => exact .nil
  | cons e l ih => exact .kept ih

theorem Substitutes.here {child : Element} {before made rest : List Element}
    (producer : isProducer child = true) (new : ∀ z ∈ made, ¬s.InStore z) :
    Substitutes s (before ++ child :: rest) (before ++ made ++ rest) := by
  induction before with
  | nil => exact .replaced producer new (.refl s rest)
  | cons e before ih => exact .kept ih

/-- What is kept is still there. -/
theorem Substitutes.mem (h : Substitutes s l l') (he : e ∈ l) (leaf : isProducer e = false) :
    e ∈ l' := by
  induction h with
  | nil => exact he
  | kept others ih =>
      rcases List.mem_cons.1 he with rfl | he
      · exact List.mem_cons_self ..
      · exact List.mem_cons_of_mem _ (ih he)
  | replaced producer new others ih =>
      rcases List.mem_cons.1 he with rfl | he
      · rw [producer] at leaf
        cases leaf
      · exact List.mem_append_right _ (ih he)

/-- Elements that are no producers stay where they are. -/
theorem Substitutes.of_append {made : List Element} (leaves : ∀ z ∈ made, isProducer z = false)
    (h : Substitutes s (made ++ l) l'') : ∃ l', l'' = made ++ l' ∧ Substitutes s l l' := by
  induction made generalizing l'' with
  | nil => exact ⟨l'', rfl, h⟩
  | cons z made ih =>
      cases h with
      | kept others =>
          obtain ⟨l', rfl, rest⟩ := ih (fun x hx => leaves x (List.mem_cons_of_mem z hx)) others
          exact ⟨l', rfl, rest⟩
      | replaced producer _ _ =>
          rw [leaves z (by simp)] at producer
          cases producer

theorem not_isProducer_of_not_inStore (new : ¬s.InStore e) : isProducer e = false := by
  cases e <;> first | rfl | exact absurd trivial new

theorem Substitutes.trans (held : ∀ e, s.InStore e → t.InStore e) (first : Substitutes s l l')
    (second : Substitutes t l' l'') : Substitutes s l l'' := by
  induction first generalizing l'' with
  | nil =>
      cases second
      exact .nil
  | kept others ih =>
      cases second with
      | kept others' => exact .kept (ih others')
      | replaced producer new others' =>
          exact .replaced producer (fun z hz old => new z hz (held z old)) (ih others')
  | replaced producer new others ih =>
      have leaves := fun z hz => not_isProducer_of_not_inStore (new z hz)
      obtain ⟨l₂, rfl, others'⟩ := second.of_append leaves
      exact .replaced producer new (ih others')

/-- Whether a store came about by putting new elements in the place of producers, with nothing old
below them. -/
structure OnlyReplaces (s t : Store) : Prop extends Brings s t where
  intact : ∀ e, s.InStore e → Intact s t e
  children : ∀ e, s.InStore e → Substitutes s (s.children e) (t.children e)

theorem Spares.onlyReplaces (h : Spares s t) : OnlyReplaces s t where
  toBrings := h.toBrings
  intact e he := (h.left e he).intact
  children e he := by
    rw [h.children he]
    exact .refl s _

theorem OnlyReplaces.trans (first : OnlyReplaces s t) (second : OnlyReplaces t u) :
    OnlyReplaces s u where
  held e he := second.held e (first.held e he)
  fresh e child new below := by
    by_cases there : t.InStore e
    · -- What is below a new element is no producer, so it stays there.
      have leaves : ∀ z ∈ t.children e, isProducer z = false :=
        fun z hz => not_isProducer_of_not_inStore (first.fresh e z new hz)
      have moved := second.children e there
      rw [← List.append_nil (t.children e)] at moved
      obtain ⟨l', same, none⟩ := moved.of_append leaves
      cases none
      rw [same, List.append_nil] at below
      exact first.fresh e child new below
    · exact fun old => second.fresh e child there below (first.held child old)
  intact e he := (first.intact e he).trans (second.intact e (first.held e he))
  children e he := (first.children e he).trans first.held (second.children e (first.held e he))

/-- All but producers stays in the trees. -/
theorem OnlyReplaces.under (h : OnlyReplaces s t) {roots : List Element} (under : s.Under roots e)
    (leaf : isProducer e = false) : t.Under roots e := by
  obtain ⟨root, hroot, reach⟩ := under
  induction reach with
  | root => exact ⟨root, hroot, .root⟩
  | @child parent x _ below ih =>
      have holds : isProducer parent = false := by
        have container := isContainer_of_child below
        cases parent <;> first | rfl | cases container
      exact (ih holds).child ((h.children parent (inStore_of_child below)).mem below leaf)

end Store

theorem Build.bindKey_onlyReplaces (container : Option Element) (e : ExpressionId) (b : Build)
    (key : Template.Key) : OnlyReplaces b.store (b.bindKey container e key).store := by
  have alike := (bindKey_binds container e b key).toAlike
  refine ⟨(Brings.refl b.store).alike alike, fun x _ => ?_, fun x _ => ?_⟩
  · rcases bindKey_cases container e b key with same | ⟨found, -, -, same⟩
    · rw [same]
      exact (Left.refl b.store x).intact
    · rw [same]
      cases x with
      | expression y =>
          rcases expression_updateExpression_cases b.store e y (fun n =>
            { n with bound := n.bound ++ [(key, found)] }) with kept | more
          · exact Left.intact (e := .expression y) kept
          · show (b.store.updateExpression e _).expression y = _
            rw [more]
      | gap g => trivial
      | _ => rfl
  · rw [alike.children]
    exact .refl _ _

namespace BuildM

variable {b : Build} {container child : Element} {before rest roots : List Element}
  {out : Except SheetError (Element × List Element) × Build}

theorem Puts.onlyReplaces (h : Puts container before child rest b out)
    (split : b.store.children container = before ++ child :: rest)
    (producer : isProducer child = true) : OnlyReplaces b.store out.2.store := by
  refine ⟨h.brings split, fun e he => ?_, fun e he => ?_⟩
  · cases h with
    | failed spares _ => exact (spares.left e he).intact
    | @placed _ spliced _ m _ _ spares _ _ =>
        exact (spares.left e he).intact.trans (intact_setChildren m.store container e _)
  · by_cases here : e = container
    · subst here
      cases h with
      | failed spares _ =>
          rw [spares.children he]
          exact .refl _ _
      | @placed _ spliced _ m _ _ spares _ new =>
          have holds := isContainer_of_child (show child ∈ b.store.children e by simp [split])
          have set := children_setChildren_self (spares.held e he) holds (before ++ spliced ++ rest)
          have put : Substitutes b.store (before ++ child :: rest) (before ++ spliced ++ rest) :=
            .here producer fun z hz => (new z hz).1
          rw [← split, ← set] at put
          exact put
    · rw [h.children_of_ne he here]
      exact .refl _ _

theorem Puts.forest (h : Puts container before child rest b out) (ready : b.ready child = true)
    (wf : b.store.WellFormed) (split : b.store.children container = before ++ child :: rest)
    (inside : ∀ root ∈ roots, b.store.InStore root) (forest : b.store.Forest roots) :
    out.2.store.Forest roots := by
  have acyclic := (h.evolves wf split).wf.acyclic
  have brings := h.brings split
  have others := fun e old ne => h.children_of_ne (e := e) old ne
  cases h with
  | failed spares evolves => exact forest.later wf acyclic inside fun e he => spares.children he
  | @placed produced spliced m₁ m evaluated fitted spares _ new =>
      have plants := fit_plants (evaluate_plants ready wf evaluated) fitted
      have here : child ∈ b.store.children container := by simp [split]
      have old := inStore_of_child here
      have regroups := regroups_setChildren m.store container (before ++ spliced ++ rest)
      have set := children_setChildren_self (spares.held container old) (isContainer_of_child here)
        (before ++ spliced ++ rest)
      -- The container is not below what is new, so that is still a forest.
      have still : (m.store.setChildren container (before ++ spliced ++ rest)).Forest spliced := by
        have nodes := nodesUnder_congr (l := spliced) plants.wf.acyclic acyclic fun e he x reach =>
          regroups.others x fun same =>
            spares.not_inStore_of_reach (plants.new e he) reach (same ▸ old)
        have forest := plants.forest
        rw [Forest, ← nodes] at forest
        exact forest
      apply forest.splice wf acyclic inside split set others still
      exact fun z hz x => brings.not_inStore_of_reach (plants.new z hz)

/-- The law of what is replaced, whether or not the trees share elements. -/
theorem replacing_law (s : Store) (roots : List Element) :
    Law roots (fun b => b.store.WellFormed ∧ OnlyReplaces s b.store) (fun _ _ => True)
      fun _ => True where
  refl _ := trivial
  trans _ _ := trivial
  wf h := h.1
  binds := by
    intro b container child e key h _ _ _ _
    have alike := (Build.bindKey_binds (some container) e b key).toAlike
    exact ⟨⟨alike.wellFormed h.1, h.2.trans (Build.bindKey_onlyReplaces _ e b key)⟩, trivial⟩
  evaluates := by
    intro b container child h _ _ ready
    obtain ⟨spares, -⟩ := evaluate_sparing container ready
    obtain ⟨evolves, -⟩ := evaluate_fresh container ready h.1
    exact ⟨⟨evolves.wf, h.2.trans spares.onlyReplaces⟩, trivial⟩
  puts := by
    intro b container before child rest h _ split ready
    have puts := puts_put container before rest ready h.1
    have replaces := puts.onlyReplaces split (isProducer_of_ready ready)
    exact ⟨⟨(puts.evolves h.1 split).wf, h.2.trans replaces⟩, trivial, fun _ _ => trivial⟩

/-- What holds in every build that resolving trees goes through. -/
structure Tended (s : Store) (roots : List Element) (b : Build) : Prop where
  wf : b.store.WellFormed
  inStore : ∀ root ∈ roots, b.store.InStore root
  forest : b.store.Forest roots
  keeps : OnlyReplaces s b.store

/-- The law of what is kept. -/
theorem tended_law (s : Store) (roots : List Element) :
    Law roots (Tended s roots) (fun _ _ => True) fun _ => True where
  refl _ := trivial
  trans _ _ := trivial
  wf h := h.wf
  binds := by
    intro b container child e key h under here asks known
    obtain ⟨⟨wf, keeps⟩, -⟩ := (replacing_law s roots).binds ⟨h.wf, h.keeps⟩ under here asks known
    have alike := (Build.bindKey_binds (some container) e b key).toAlike
    refine ⟨⟨wf, fun root hroot => (alike.inStore root).2 (h.inStore root hroot), ?_, keeps⟩, trivial⟩
    exact h.forest.later h.wf wf.acyclic h.inStore fun e _ => alike.children e
  evaluates := by
    intro b container child h under here ready
    obtain ⟨⟨wf, keeps⟩, -⟩ := (replacing_law s roots).evaluates ⟨h.wf, h.keeps⟩ under here ready
    obtain ⟨spares, -⟩ := evaluate_sparing container ready
    refine ⟨⟨wf, fun root hroot => spares.held root (h.inStore root hroot), ?_, keeps⟩, trivial⟩
    exact h.forest.later h.wf wf.acyclic h.inStore fun e he => spares.children he
  puts := by
    intro b container before child rest h under split ready
    obtain ⟨⟨wf, keeps⟩, -, -⟩ := (replacing_law s roots).puts ⟨h.wf, h.keeps⟩ under split ready
    have puts := puts_put container before rest ready h.wf
    have evolves := puts.evolves h.wf split
    exact ⟨⟨wf, fun root hroot => evolves.held root (h.inStore root hroot),
      puts.forest ready h.wf split h.inStore h.forest, keeps⟩, trivial, fun _ _ => trivial⟩

/-- Resolving trees only replaces producers: in every build that it goes through, the last one
included, whatever else was in the trees is there as it was, and the trees are still trees. -/
theorem resolve_onlyReplaces (wf : b.store.WellFormed)
    (inside : ∀ root ∈ roots, b.store.InStore root) (forest : b.store.Forest roots) :
    (resolve roots b : Except SheetError Unit × Build).2 ∈ history roots b ∧
      ∀ t ∈ history roots b, OnlyReplaces b.store t.store ∧ t.store.WellFormed ∧
        t.store.Forest roots ∧
        ∀ e, b.store.Under roots e → isProducer e = false → t.store.Under roots e := by
  have start : Tended b.store roots b := ⟨wf, inside, forest, (Spares.refl b.store).onlyReplaces⟩
  have lawful := (tended_law b.store roots).history start
  refine ⟨List.mem_of_getLast? lawful.last, fun t ht => ?_⟩
  have tended := lawful.holds t ht
  exact ⟨tended.keeps, tended.wf, tended.forest, fun e => tended.keeps.under⟩

/-- A column is doubled in a column, which takes its cells, and in a stack, which takes it whole. -/
theorem resolve_onlyReplaces_doubling : doubling.store.WellFormed ∧
    (∀ root ∈ [Element.vector ⟨0⟩, .vector ⟨1⟩, .stack ⟨0⟩], doubling.store.InStore root) ∧
    doubling.store.Forest [.vector ⟨0⟩, .vector ⟨1⟩, .stack ⟨0⟩] ∧
    ∃ t ∈ history [.vector ⟨0⟩, .vector ⟨1⟩, .stack ⟨0⟩] doubling,
      OnlyReplaces doubling.store t.store ∧
        t.store.Forest [.vector ⟨0⟩, .vector ⟨1⟩, .stack ⟨0⟩] := by
  have forest : doubling.store.Forest [.vector ⟨0⟩, .vector ⟨1⟩, .stack ⟨0⟩] := by decide
  have upheld := doubling_upheld
  obtain ⟨last, holds⟩ := resolve_onlyReplaces upheld.wf upheld.inStore forest
  obtain ⟨keeps, -, still, -⟩ := holds _ last
  exact ⟨upheld.wf, upheld.inStore, forest, _, last, keeps, still⟩

end BuildM

end Spreadsheet
