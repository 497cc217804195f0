import Spreadsheet.Resolve.FixedPoint
import Spreadsheet.Proofs.Resolve.Evolution

/-!
# What trying a producer changes

Trying a producer binds keys, and if the producer is ready adds nodes for its result.  Either way the
old trees stay as they are, the new ones hold no producers, and no producer waits for more keys than
before.
-/

namespace Spreadsheet

open Store

namespace Store

variable {s t u : Store}

/-- Whether a store came about by binding keys and adding nodes. -/
structure Advances (s t : Store) : Prop where
  held : ∀ e, s.InStore e → t.InStore e
  children : ∀ e, s.InStore e → t.children e = s.children e
  solid : ∀ e child, ¬s.InStore e → child ∈ t.children e → child.isSolid = true
  waits : ∀ e, (t.waitsFor e).length ≤ (s.waitsFor e).length

theorem Advances.refl (s : Store) : Advances s s where
  held _ he := he
  children _ _ := rfl
  solid _ _ new below := absurd (inStore_of_child below) new
  waits _ := le_refl _

theorem Advances.trans (first : Advances s t) (second : Advances t u) : Advances s u where
  held e he := second.held e (first.held e he)
  children e he := (second.children e (first.held e he)).trans (first.children e he)
  solid e child new below := by
    by_cases old : t.InStore e
    · rw [second.children e old] at below
      exact first.solid e child new below
    · exact second.solid e child old below
  waits e := (second.waits e).trans (first.waits e)

/-- Nothing below an element is a producer if the element is none and has nothing old below it. -/
theorem Advances.not_isProducer (h : Advances s t) {e x : Element} (apart : Apart s t e)
    (solid : e.isSolid = true) (reach : Reach t e x) : isProducer x = false := by
  have still : x.isSolid = true := by
    cases reach with
    | root => exact solid
    | @child parent x above below =>
        refine h.solid parent x (fun old => ?_) below
        exact apart parent (isContainer_of_child below) old above
  cases x <;> first | rfl | cases still

theorem waitsFor_congr (expressions : t.expressions = s.expressions) (calls : t.calls = s.calls)
    (e : Element) : t.waitsFor e = s.waitsFor e := by
  have same : ∀ x, t.unboundKeys x = s.unboundKeys x := fun x => by
    simp only [unboundKeys, expression, expressions]
  cases e with
  | expression x => simp only [waitsFor, same]
  | call c => simp only [waitsFor, callKeys, callExpressions, call, calls, funext same]
  | _ => rfl

theorem Alike.advances (h : Alike s t) (waits : ∀ e, (t.waitsFor e).length ≤ (s.waitsFor e).length) :
    Advances s t where
  held e he := (h.inStore e).2 he
  children e _ := h.children e
  solid e _ new below := absurd (inStore_of_child (h.children e ▸ below)) new
  waits := waits

theorem Alike.advances_of_eq (h : Alike s t) (expressions : t.expressions = s.expressions)
    (calls : t.calls = s.calls) : Advances s t :=
  h.advances fun e => (congrArg List.length (waitsFor_congr expressions calls e)).le

theorem Binds.advances (h : Binds s t) : Advances s t := by
  refine h.toAlike.advances fun e => ?_
  cases e with
  | expression x => simpa only [waitsFor, List.length_map] using (h.unbound x).length_le
  | call c =>
      simp only [waitsFor, List.length_map, callKeys, h.callExpressions]
      exact (List.Sublist.flatMap_right _ fun x _ => h.unbound x).length_le
  | _ => exact le_refl _

/-! ## New nodes -/

theorem advances_addCell (s : Store) (n : CellNode) : Advances s (s.addCell n).2 where
  held e he := by
    cases e with
    | cell c => exact Nat.lt_of_lt_of_eq (Nat.lt_succ_of_lt he) (Table.size_push s.cells n).symm
    | _ => exact he
  children e _ := children_addCell s n e
  solid e child new below := by
    rw [children_addCell] at below
    exact absurd (inStore_of_child below) new
  waits e := (congrArg List.length (waitsFor_congr (rfl) (rfl) e)).le

theorem advances_addVector (s : Store) {n : VectorNode}
    (solid : ∀ child ∈ n.children, child.isSolid = true) : Advances s (s.addVector n).2 where
  held e he := by
    cases e with
    | vector v => exact Nat.lt_of_lt_of_eq (Nat.lt_succ_of_lt he) (Table.size_push s.vectors n).symm
    | _ => exact he
  children e he := by
    cases e with
    | vector v => rw [children, children, vector_addVector_eq, if_neg (Nat.ne_of_lt he)]
    | _ => rfl
  solid e child new below := by
    cases e with
    | vector v =>
        rw [children, vector_addVector_eq] at below
        split at below
        case isTrue => exact solid child below
        case isFalse => exact absurd (inStore_of_child (s := s) (e := .vector v) below) new
    | _ => exact absurd (inStore_of_child (s := s) below) new
  waits e := (congrArg List.length (waitsFor_congr (rfl) (rfl) e)).le

theorem advances_addFrame (s : Store) {n : FrameNode}
    (solid : ∀ child ∈ n.children, child.isSolid = true) : Advances s (s.addFrame n).2 where
  held e he := by
    cases e with
    | frame f => exact Nat.lt_of_lt_of_eq (Nat.lt_succ_of_lt he) (Table.size_push s.frames n).symm
    | _ => exact he
  children e he := by
    cases e with
    | frame f => rw [children, children, frame_addFrame_eq, if_neg (Nat.ne_of_lt he)]
    | _ => rfl
  solid e child new below := by
    cases e with
    | frame f =>
        rw [children, frame_addFrame_eq] at below
        split at below
        case isTrue => exact solid child below
        case isFalse => exact absurd (inStore_of_child (s := s) (e := .frame f) below) new
    | _ => exact absurd (inStore_of_child (s := s) below) new
  waits e := (congrArg List.length (waitsFor_congr (rfl) (rfl) e)).le

theorem isSolid_of_mem_map {α : Type} {toElement : α → Element} {l : List α}
    (h : ∀ a, (toElement a).isSolid = true) : ∀ z ∈ l.map toElement, z.isSolid = true := by
  intro z hz
  obtain ⟨a, -, rfl⟩ := List.mem_map.1 hz
  exact h a

end Store

/-! ## Making elements -/

namespace StoreM

variable {α β : Type}

/-- Whether an operation does no more than advance a store. -/
def Advancing (m : StoreM α) : Prop :=
  ∀ s, Advances s (m s : α × Store).2

theorem Advancing.pure (a : α) : Advancing (pure a) :=
  fun s => .refl s

theorem Advancing.get : Advancing get :=
  fun s => .refl s

theorem Advancing.bind {m : StoreM α} {f : α → StoreM β} (hm : Advancing m)
    (hf : ∀ a, Advancing (f a)) : Advancing (m >>= f) :=
  fun s => (hm s).trans (hf _ _)

theorem Advancing.mapM {γ : Type} {f : γ → StoreM α} (h : ∀ c, Advancing (f c)) (l : List γ) :
    Advancing (l.mapM f) := by
  induction l with
  | nil => exact .pure []
  | cons c l ih =>
      rw [List.mapM_cons]
      exact (h c).bind fun a => ih.bind fun as => .pure _

theorem newCell_advancing (n : CellNode) : Advancing (newCell n) :=
  fun s => advances_addCell s n

theorem newVector_advancing {n : VectorNode} (solid : ∀ child ∈ n.children, child.isSolid = true) :
    Advancing (newVector n) :=
  fun s => advances_addVector s solid

theorem newFrame_advancing {n : FrameNode} (solid : ∀ child ∈ n.children, child.isSolid = true) :
    Advancing (newFrame n) :=
  fun s => advances_addFrame s solid

theorem promote_advancing (c : CellId) (o : Orientation) : Advancing (promote c o) :=
  Advancing.get.bind fun _ => newVector_advancing fun _ hz => List.mem_singleton.1 hz ▸ rfl

theorem copyCell_advancing (c : CellId) : Advancing (copyCell c) :=
  Advancing.get.bind fun _ => newCell_advancing _

theorem copyVector_advancing (v : VectorId) : Advancing (copyVector v) :=
  Advancing.get.bind fun _ => Advancing.get.bind fun _ =>
    (Advancing.mapM copyCell_advancing _).bind fun _ =>
      newVector_advancing (isSolid_of_mem_map fun _ => rfl)

theorem copyFrame_advancing (f : FrameId) : Advancing (copyFrame f) :=
  Advancing.get.bind fun _ => Advancing.get.bind fun _ =>
    (Advancing.mapM copyVector_advancing _).bind fun _ =>
      newFrame_advancing (isSolid_of_mem_map fun _ => rfl)

theorem newFormulaCell_advancing (f : Formula) : Advancing (newFormulaCell f) := by
  cases f <;> exact newCell_advancing _

theorem vectorOf_advancing (t : Series) : Advancing (vectorOf t) :=
  (Advancing.mapM newFormulaCell_advancing _).bind fun _ =>
    newVector_advancing (isSolid_of_mem_map fun _ => rfl)

theorem elementOf_advancing (g : Grid) : Advancing (elementOf g) := by
  cases g with
  | scalar f => exact (newFormulaCell_advancing f).bind fun _ => .pure _
  | series t => exact (vectorOf_advancing t).bind fun _ => .pure _
  | table vectors o =>
      exact (Advancing.mapM vectorOf_advancing vectors).bind fun _ =>
        (newFrame_advancing (isSolid_of_mem_map fun _ => rfl)).bind fun _ => .pure _

end StoreM

namespace BuildM

variable {α β : Type} {b b' : Build}

/-- Whether an operation does no more than advance the store, whether or not it fails. -/
def Advancing (m : BuildM α) : Prop :=
  ∀ b, Advances b.store (m b : Except SheetError α × Build).2.store

theorem Advancing.of_runs {m : BuildM α} (h : Advancing m) {a : α} (run : Runs m b a b') :
    Advances b.store b'.store := by
  have here := h b
  rwa [show (m b : Except SheetError α × Build) = (.ok a, b') from run] at here

theorem Advancing.pure (a : α) : Advancing (pure a) :=
  fun b => .refl b.store

theorem Advancing.throw (e : SheetError) : Advancing (throw e : BuildM α) :=
  fun b => .refl b.store

theorem Advancing.get : Advancing get :=
  fun b => .refl b.store

theorem Advancing.modify {f : Build → Build} (h : ∀ b : Build, Advances b.store (f b).store) :
    Advancing (modify f) :=
  h

theorem Advancing.changeStore {f : Store → Store} (h : ∀ s, Advances s (f s)) :
    Advancing (changeStore f) :=
  fun b => h b.store

theorem Advancing.bind {m : BuildM α} {f : α → BuildM β} (hm : Advancing m)
    (hf : ∀ a, Advancing (f a)) : Advancing (m >>= f) := by
  intro b
  have first := hm b
  rw [bind_apply]
  generalize (m b : Except SheetError α × Build) = out at first ⊢
  rcases out with ⟨e | a, t⟩
  · exact first
  · exact first.trans (hf a t)

theorem Advancing.get_bind {f : Build → BuildM β} (h : ∀ b, Advancing (f b)) :
    Advancing (MonadState.get >>= f) :=
  Advancing.get.bind h

theorem Advancing.ite {c : Prop} [Decidable c] {m m' : BuildM α} (h : Advancing m)
    (h' : Advancing m') : Advancing (if c then m else m') := by
  split
  · exact h
  · exact h'

theorem Advancing.liftStore {m : StoreM α} (h : StoreM.Advancing m) : Advancing (liftStore m) :=
  fun b => h b.store

theorem Advancing.ofExcept (x : Except SheetError α) : Advancing (ofExcept x) := by
  cases x with
  | ok a => exact .pure a
  | error e => exact .throw e

theorem Advancing.refuse (container child : Element) :
    Advancing (refuse container child : BuildM α) :=
  Advancing.get_bind fun _ => .throw _

theorem elementFor_advancing (v : Value) (reference : Bool) : Advancing (elementFor v reference) := by
  refine Advancing.get_bind fun b => ?_
  split
  · exact .liftStore (StoreM.elementOf_advancing _)
  · exact .throw _
  · exact (Advancing.liftStore (StoreM.copyCell_advancing _)).bind fun _ => .pure _
  · exact (Advancing.liftStore (StoreM.copyVector_advancing _)).bind fun _ => .pure _
  · exact (Advancing.liftStore (StoreM.copyFrame_advancing _)).bind fun _ => .pure _
  · exact (Advancing.ofExcept _).bind fun _ => .liftStore (StoreM.elementOf_advancing _)

theorem registerId_advancing (key : String) (e : Element) : Advancing (registerId key e) :=
  Advancing.ite (.modify fun b => .refl b.store) (.throw _)

theorem registerHeader_advancing (key : String) (e : Element) : Advancing (registerHeader key e) :=
  Advancing.ite (.modify fun b => .refl b.store) (.pure _)

theorem setId_advancing {e : Element} (solid : e.isSolid = true) (id : String) :
    Advancing (setId e id) := by
  refine (registerId_advancing id e).bind fun _ => .changeStore fun s => ?_
  cases e with
  | cell c => exact Alike.advances_of_eq (alike_updateCell s c fun _ => (rfl)) (rfl) (rfl)
  | vector v => exact Alike.advances_of_eq (alike_updateAttributes s (.vector v) _) (rfl) (rfl)
  | frame f => exact Alike.advances_of_eq (alike_updateAttributes s (.frame f) _) (rfl) (rfl)
  | stack k => exact Alike.advances_of_eq (alike_updateAttributes s (.stack k) _) (rfl) (rfl)
  | _ => cases solid

theorem setHeader_advancing {e : Element} (solid : e.isSolid = true) (header : String) :
    Advancing (setHeader e header) := by
  refine (registerHeader_advancing header e).bind fun _ => .changeStore fun s => ?_
  cases e with
  | cell c => exact Alike.advances_of_eq (alike_updateCell s c fun _ => (rfl)) (rfl) (rfl)
  | vector v => exact Alike.advances_of_eq (alike_updateVector s v fun _ => rfl) (rfl) (rfl)
  | frame f => exact .refl s
  | stack k => exact .refl s
  | _ => cases solid

theorem advances_inheritStyles (d : Declared) (e : Element) (s : Store) :
    Advances s (s.inheritStyles d e) := by
  have alike := alike_inheritStyles d e s
  cases e <;> exact alike.advances_of_eq rfl rfl

theorem Advancing.takeName {bare : Store → Bool} {set register : String → BuildM Unit}
    (hset : ∀ name, Advancing (set name)) (hregister : ∀ name, Advancing (register name))
    (name : Option String) : Advancing (takeName bare set register name) := by
  cases name with
  | none => exact .pure ()
  | some name => exact .get_bind fun _ => .ite (hset name) (hregister name)

theorem applyDeclared_advancing (d : Declared) {e : Element} (solid : e.isSolid = true) :
    Advancing (applyDeclared d e) := by
  have named := fun id => setId_advancing solid id
  have headed := fun header => setHeader_advancing solid header
  rw [applyDeclared_eq]
  apply (Advancing.takeName named (fun id => registerId_advancing id e) d.id).bind
  intro _
  apply (Advancing.takeName headed (fun header => registerHeader_advancing header e) d.header).bind
  intro _
  exact .changeStore (advances_inheritStyles d e)

theorem produced_advances {x : Except SheetError Value} {reference : Bool} {d : Declared}
    {e : Element} (wf : b.store.WellFormed) (h : Runs (do
      let element ← elementFor (← ofExcept x) reference
      applyDeclared d element
      return element) b e b') : Advances b.store b'.store := by
  obtain ⟨value, b₁, evaluated, h⟩ := runs_bind.1 h
  obtain ⟨element, b₂, made, h⟩ := runs_bind.1 h
  obtain ⟨_, b₃, declared, h⟩ := runs_bind.1 h
  obtain ⟨rfl, rfl⟩ := runs_pure.1 h
  have same : b₁.store.WellFormed := ((evolving_ofExcept (.refl wf)).of_runs evaluated).1.wf
  have solid := ((elementFor_fresh same).of_runs made).2.solid
  exact ((Advancing.ofExcept x).of_runs evaluated).trans
    (((elementFor_advancing value reference).of_runs made).trans
      ((applyDeclared_advancing d solid).of_runs declared))

theorem evalExpression_advances {e : ExpressionId} {hint : Option Dimension} {reference : Bool}
    {x : Element} (wf : b.store.WellFormed) (h : Runs (evalExpression e hint reference) b x b') :
    Advances b.store b'.store := by
  obtain ⟨_, _, got, h⟩ := runs_bind.1 h
  obtain ⟨rfl, rfl⟩ := runs_get.1 got
  exact produced_advances wf h

theorem evalCall_advances {c : CallId} {hint : Option Dimension} {x : Element}
    (wf : b.store.WellFormed) (h : Runs (evalCall c hint) b x b') : Advances b.store b'.store := by
  obtain ⟨_, _, got, h⟩ := runs_bind.1 h
  obtain ⟨rfl, rfl⟩ := runs_get.1 got
  exact produced_advances wf h

theorem bindKeys_waits (container : Option Element) (e : ExpressionId) (b : Build) :
    b.bindKeys container e = b ∨
      ((b.bindKeys container e).store.waitsFor (.expression e)).length <
        (b.store.waitsFor (.expression e)).length := by
  simpa only [waitsFor, List.length_map] using Build.bindKeys_cases container e b

theorem bindArguments_waits (container : Option Element) (c : CallId) (b : Build) :
    (b.store.call c).args.foldl (Build.bindArgument container) b = b ∨
      (((b.store.call c).args.foldl (Build.bindArgument container) b).store.waitsFor
        (.call c)).length < (b.store.waitsFor (.call c)).length := by
  rcases Build.bindArguments_cases container (b.store.call c).args b with same | ⟨e, he, fewer⟩
  · exact .inl same
  · right
    have binds := Build.bindArguments_binds container (b.store.call c).args b
    have mem : e ∈ b.store.callExpressions c := List.mem_filterMap.2 ⟨_, he, rfl⟩
    obtain ⟨before, after, split⟩ := List.append_of_mem mem
    simp only [waitsFor, List.length_map, callKeys, binds.callExpressions, split,
      List.flatMap_append, List.flatMap_cons, List.length_append]
    have first := (List.Sublist.flatMap_right before fun x _ => binds.unbound x).length_le
    have last := (List.Sublist.flatMap_right after fun x _ => binds.unbound x).length_le
    omega

/-- Trying a producer advances the store.  When it is not ready, either nothing has changed or it
waits for fewer keys than before. -/
theorem produce?_advances {container child : Element} {r : Option Element}
    (wf : b.store.WellFormed) (h : Runs (produce? container child) b r b') :
    Advances b.store b'.store ∧ (r = none →
      b' = b ∨ (b'.store.waitsFor child).length < (b.store.waitsFor child).length) := by
  cases child with
  | expression e =>
      obtain ⟨ready, m, attempted, h⟩ := runs_bind.1 h
      obtain ⟨-, rfl⟩ := runs_attemptExpression.1 attempted
      have binds := Build.bindKeys_binds (some container) e b
      split at h
      case isTrue =>
        obtain ⟨x, m, evaluated, h⟩ := runs_bind.1 h
        obtain ⟨rfl, rfl⟩ := runs_pure.1 h
        have evaluates := evalExpression_advances (binds.toAlike.wellFormed wf) evaluated
        exact ⟨binds.advances.trans evaluates, fun none => by cases none⟩
      case isFalse =>
        obtain ⟨rfl, rfl⟩ := runs_pure.1 h
        exact ⟨binds.advances, fun _ => bindKeys_waits (some container) e b⟩
  | call c =>
      obtain ⟨ready, m, attempted, h⟩ := runs_bind.1 h
      obtain rfl := eq_of_attemptCall attempted
      have binds := Build.bindArguments_binds (some container) (b.store.call c).args b
      split at h
      case isTrue =>
        obtain ⟨x, m, evaluated, h⟩ := runs_bind.1 h
        obtain ⟨rfl, rfl⟩ := runs_pure.1 h
        have evaluates := evalCall_advances (binds.toAlike.wellFormed wf) evaluated
        exact ⟨binds.advances.trans evaluates, fun none => by cases none⟩
      case isFalse =>
        obtain ⟨rfl, rfl⟩ := runs_pure.1 h
        exact ⟨binds.advances, fun _ => bindArguments_waits (some container) c b⟩
  | _ =>
      obtain ⟨rfl, rfl⟩ := runs_pure.1 h
      exact ⟨.refl _, fun _ => .inl rfl⟩

/-! ## Fitting -/

theorem promoted_advancing (c : CellId) (o : Orientation) : Advancing (promoted c o) :=
  (Advancing.liftStore (StoreM.promote_advancing c o.cross)).bind fun _ => .pure _

theorem turnVectors_advancing (o : Orientation) (vectors : List VectorId) :
    Advancing (turnVectors o vectors) := by
  refine Advancing.bind (.changeStore fun s => ?_) fun _ => .pure _
  induction vectors generalizing s with
  | nil => exact .refl s
  | cons v rest ih =>
      refine Advances.trans ?_ (ih _)
      exact Alike.advances_of_eq (alike_updateVector s v fun _ => (rfl)) (rfl) (rfl)

theorem fit_advancing (container produced : Element) : Advancing (fit container produced) := by
  refine Advancing.get_bind fun b => ?_
  split
  · exact .pure _
  · exact .pure _
  · exact .refuse _ _
  · exact (promoted_advancing _ _).bind fun _ => .pure _
  · exact turnVectors_advancing _ _
  · exact turnVectors_advancing _ _
  · exact .refuse _ _
  · exact (promoted_advancing _ _).bind fun _ => .pure _
  · exact .pure _

/-- What a container makes of an element: the element itself, the cell in a new vector, the content of
a vector, or vectors that are turned. -/
theorem runs_fit {container produced : Element} {l : List Element}
    (h : Runs (fit container produced) b l b') :
    (l = [produced] ∧ b' = b) ∨
    (∃ c o v, produced = .cell c ∧ l = [.vector v] ∧
      Runs (liftStore (StoreM.promote c o)) b v b') ∨
    (∃ v w, container = .vector v ∧ produced = .vector w ∧ l = b.store.content w ∧ b' = b) ∨
    ∃ o vectors, Runs (turnVectors o vectors) b l b' ∧
      ((∃ v, produced = .vector v ∧ vectors = [v]) ∨
        ∃ f g, container = .frame f ∧ produced = .frame g ∧ vectors = b.store.frameVectors g) := by
  have promoted : ∀ {c : CellId} {o : Orientation}, Runs (do return [← promoted c o]) b l b' →
      ∃ o v, l = [.vector v] ∧ Runs (liftStore (StoreM.promote c o)) b v b' := by
    intro c o h
    obtain ⟨x, m, made, h⟩ := runs_bind.1 h
    obtain ⟨rfl, rfl⟩ := runs_pure.1 h
    obtain ⟨v, _, inner, h⟩ := runs_bind.1 made
    obtain ⟨rfl, rfl⟩ := runs_pure.1 h
    exact ⟨_, v, rfl, inner⟩
  have refused : ∀ {container child : Element}, ¬Runs (refuse container child) b l b' := by
    intro container child h
    obtain ⟨_, _, -, h⟩ := runs_bind.1 h
    exact not_runs_throw h
  obtain ⟨_, _, got, h⟩ := runs_bind.1 h
  obtain ⟨rfl, rfl⟩ := runs_get.1 got
  split at h
  · obtain ⟨rfl, rfl⟩ := runs_pure.1 h
    exact .inl ⟨rfl, rfl⟩
  · obtain ⟨rfl, rfl⟩ := runs_pure.1 h
    exact .inr (.inr (.inl ⟨_, _, rfl, rfl, rfl, rfl⟩))
  · exact absurd h refused
  · obtain ⟨o, v, rfl, made⟩ := promoted h
    exact .inr (.inl ⟨_, o, v, rfl, rfl, made⟩)
  · exact .inr (.inr (.inr ⟨_, _, h, .inl ⟨_, rfl, rfl⟩⟩))
  · exact .inr (.inr (.inr ⟨_, _, h, .inr ⟨_, _, rfl, rfl, rfl⟩⟩))
  · exact absurd h refused
  · obtain ⟨o, v, rfl, made⟩ := promoted h
    exact .inr (.inl ⟨_, o, v, rfl, rfl, made⟩)
  · obtain ⟨rfl, rfl⟩ := runs_pure.1 h
    exact .inl ⟨rfl, rfl⟩

theorem runs_turnVectors {o : Orientation} {vectors : List VectorId} {l : List Element} :
    Runs (turnVectors o vectors) b l b' ↔ l = vectors.map .vector ∧ b' = { b with
      store := vectors.foldl (fun s v => s.updateVector v ({ · with orientation := o })) b.store } := by
  rw [turnVectors, runs_bind]
  constructor
  · rintro ⟨_, m, changed, h⟩
    obtain rfl := runs_changeStore.1 changed
    obtain ⟨rfl, rfl⟩ := runs_pure.1 h
    exact ⟨rfl, rfl⟩
  · rintro ⟨rfl, rfl⟩
    exact ⟨(), _, runs_changeStore.2 rfl, runs_pure.2 ⟨rfl, rfl⟩⟩

/-- What a container makes of a solid element whose children are solid is solid. -/
theorem fit_isSolid {container produced : Element} {l : List Element}
    (h : Runs (fit container produced) b l b') (solid : produced.isSolid = true)
    (below : ∀ child ∈ b.store.children produced, child.isSolid = true) :
    ∀ z ∈ l, z.isSolid = true := by
  rcases runs_fit h with ⟨rfl, -⟩ | ⟨c, o, v, -, rfl, -⟩ | ⟨v, w, -, rfl, rfl, -⟩ |
    ⟨o, vectors, turned, -⟩
  · exact fun z hz => List.mem_singleton.1 hz ▸ solid
  · exact fun z hz => List.mem_singleton.1 hz ▸ rfl
  · exact fun z hz => below z (List.mem_of_mem_drop hz)
  · obtain ⟨rfl, -⟩ := runs_turnVectors.1 turned
    exact isSolid_of_mem_map fun _ => rfl

end BuildM

end Spreadsheet
