import Spreadsheet.Proofs.Lifetime
import Spreadsheet.Proofs.Layout.Shapes
import Spreadsheet.Proofs.Resolve.Novel

/-!
# Tidy stores

The nodes in use hold only nodes that are there and in use, every container in use holds what it may
hold, and a vector in use whose header is inserted begins with its header cell.  A container that is
out of use may be in any state.  A store stays tidy when nodes are made that hold what they may hold,
and when nodes are dressed: when anything about them changes but what they hold, their axes and their
header cells.
-/

namespace Spreadsheet

/-- Whether the node of an element has a property, if the element has a node. -/
def Element.Meets (P : Node → Prop) (e : Element) : Prop :=
  ∀ n ∈ e.node?, P n

theorem Element.Meets.imp {P Q : Node → Prop} {e : Element} (h : e.Meets P)
    (imp : ∀ n, P n → Q n) : e.Meets Q :=
  fun n hn => imp n (h n hn)

namespace Store

variable {use use' : Node → Prop} {s t u : Store} {n : Node}

/-- Whether a node is there and in use. -/
def AtHand (use : Node → Prop) (s : Store) (n : Node) : Prop :=
  s.Has n ∧ use n

/-- Whether the nodes in use hold only nodes that are there and in use.  What is not made yet counts
as in use. -/
structure Owned (use : Node → Prop) (s : Store) : Prop where
  wf : s.WellFormed
  unborn : ∀ n, ¬s.Has n → use n
  holds : ∀ n, use n → ∀ m ∈ s.holds n, s.AtHand use m

/-- Whether the containers in use hold what they may hold, header cells first. -/
structure Sound (use : Node → Prop) (s : Store) : Prop where
  takes : ∀ e : Element, e.Meets use → ∀ child ∈ s.children e, s.Takes e child
  headed : ∀ v, use (.vector v) → (s.vector v).headerInserted = true →
    ∃ c, (s.children (.vector v)).head? = some (.cell c) ∧ (s.cell c).isHeader = true

/-- Whether the nodes in use hold what they may hold. -/
structure Tidy (use : Node → Prop) (s : Store) : Prop extends Owned use s, Sound use s

theorem Sound.anti (h : Sound use s) (fewer : ∀ n, use' n → use n) : Sound use' s where
  takes e used := h.takes e (used.imp fewer)
  headed v used := h.headed v (fewer _ used)

theorem inStore_of_meets {e : Element} (h : e.Meets s.Has) : s.InStore e := by
  cases e with
  | cell c => exact h _ rfl
  | vector v => exact h _ rfl
  | frame f => exact h _ rfl
  | stack k => exact h _ rfl
  | _ => trivial

theorem meets_of_inStore {e : Element} (h : s.InStore e) (leaf : isProducer e = false) :
    e.Meets s.Has := by
  rintro n hn
  cases e with
  | gap g => cases hn
  | expression x => cases leaf
  | call c => cases leaf
  | _ =>
      obtain rfl := Option.some.inj hn
      exact h

theorem Owned.child (h : Owned use s) {e child : Element} (used : e.Meets use)
    (below : child ∈ s.children e) : child.Meets (s.AtHand use) := by
  intro m hm
  obtain ⟨k, hk, -, holds⟩ := mem_holds below hm
  exact h.holds k (used k hk) m holds

theorem Tidy.length_headerInserted (h : s.Tidy use) {v : VectorId} (used : use (.vector v)) :
    (s.vector v).headerInserted.toNat ≤ (s.vector v).children.length := by
  cases inserted : (s.vector v).headerInserted with
  | false => exact Nat.zero_le _
  | true =>
      obtain ⟨c, first, -⟩ := h.headed v used inserted
      exact List.length_pos_of_mem (List.mem_of_head? first)

/-! ## New nodes -/

/-- Whether a store came about by making nodes. -/
structure Grown (s t : Store) : Prop where
  has : ∀ n, s.Has n → t.Has n
  left : ∀ n, s.Has n → Left s t n.element

theorem Grown.refl (s : Store) : Grown s s :=
  ⟨fun _ h => h, fun n _ => .refl s n.element⟩

theorem Grown.trans (first : Grown s t) (second : Grown t u) : Grown s u where
  has n h := second.has n (first.has n h)
  left n h := (first.left n h).trans (second.left n (first.has n h))

theorem Left.holds {n : Node} (h : Left s t n.element) : t.holds n = s.holds n := by
  cases n with
  | cell c => rw [Store.holds, show t.cell c = s.cell c from h, Store.holds]
  | vector v => rw [Store.holds, show t.vector v = s.vector v from h, Store.holds]
  | frame f => rw [Store.holds, show t.frame f = s.frame f from h, Store.holds]
  | stack k => rw [Store.holds, show t.stack k = s.stack k from h, Store.holds]
  | expression x => rw [Store.holds, show t.expression x = s.expression x from h, Store.holds]
  | call c => rw [Store.holds, show t.call c = s.call c from h, Store.holds]

theorem Left.orientation? {e : Element} (h : Left s t e) : t.orientation? e = s.orientation? e := by
  cases e with
  | vector v => exact congrArg (fun n => some (VectorNode.orientation n)) h
  | frame f => exact congrArg (fun n => some (FrameNode.orientation n)) h
  | stack k => exact congrArg (fun n => some (StackNode.orientation n)) h
  | _ => rfl

theorem Grown.element (h : Grown s t) {e : Element} (old : e.Meets s.Has) : Left s t e := by
  cases e with
  | gap g => trivial
  | _ => exact h.left _ (old _ rfl)

theorem Grown.inStore (h : Grown s t) {e : Element} (old : s.InStore e) : t.InStore e := by
  cases e with
  | cell c => exact h.has (.cell c) old
  | vector v => exact h.has (.vector v) old
  | frame f => exact h.has (.frame f) old
  | stack k => exact h.has (.stack k) old
  | _ => trivial

theorem Grown.children (h : Grown s t) {e : Element} (old : s.InStore e) :
    t.children e = s.children e := by
  cases e with
  | vector v => exact (h.left (.vector v) old).children
  | frame f => exact (h.left (.frame f) old).children
  | stack k => exact (h.left (.stack k) old).children
  | _ => rfl

theorem AtHand.later (h : s.AtHand use n) (grown : Grown s t) : t.AtHand use n :=
  ⟨grown.has n h.1, h.2⟩

/-- Whether a store came about by making a node. -/
structure Born (n : Node) (s t : Store) : Prop where
  new : ¬s.Has n
  has : ∀ m, t.Has m ↔ s.Has m ∨ m = n
  left : ∀ m, m ≠ n → Left s t m.element

theorem Born.grown (h : Born n s t) : Grown s t where
  has m old := (h.has m).2 (.inl old)
  left m old := h.left m fun same => h.new (same ▸ old)

theorem Born.there (h : Born n s t) : t.Has n :=
  (h.has n).2 (.inr rfl)

theorem born_addCell (s : Store) (n : CellNode) :
    Born (.cell (s.addCell n).1) s (s.addCell n).2 where
  new := Nat.lt_irrefl _
  has m := by
    cases m with
    | cell c =>
        obtain ⟨i⟩ := c
        simp [Has, addCell, Table.size_push, Nat.le_iff_lt_or_eq]
    | _ => simp [Has, addCell]
  left m other := by
    cases m with
    | cell c =>
        refine (cell_addCell_eq s n c).trans (if_neg fun same => other ?_)
        exact congrArg Node.cell (congrArg CellId.mk same)
    | _ => rfl

theorem born_addVector (s : Store) (n : VectorNode) :
    Born (.vector (s.addVector n).1) s (s.addVector n).2 where
  new := Nat.lt_irrefl _
  has m := by
    cases m with
    | vector v =>
        obtain ⟨i⟩ := v
        simp [Has, addVector, Table.size_push, Nat.le_iff_lt_or_eq]
    | _ => simp [Has, addVector]
  left m other := by
    cases m with
    | vector v =>
        refine (vector_addVector_eq s n v).trans (if_neg fun same => other ?_)
        exact congrArg Node.vector (congrArg VectorId.mk same)
    | _ => rfl

theorem born_addFrame (s : Store) (n : FrameNode) :
    Born (.frame (s.addFrame n).1) s (s.addFrame n).2 where
  new := Nat.lt_irrefl _
  has m := by
    cases m with
    | frame f =>
        obtain ⟨i⟩ := f
        simp [Has, addFrame, Table.size_push, Nat.le_iff_lt_or_eq]
    | _ => simp [Has, addFrame]
  left m other := by
    cases m with
    | frame f =>
        refine (frame_addFrame_eq s n f).trans (if_neg fun same => other ?_)
        exact congrArg Node.frame (congrArg FrameId.mk same)
    | _ => rfl

theorem born_addStack (s : Store) (n : StackNode) :
    Born (.stack (s.addStack n).1) s (s.addStack n).2 where
  new := Nat.lt_irrefl _
  has m := by
    cases m with
    | stack k =>
        obtain ⟨i⟩ := k
        simp [Has, addStack, Table.size_push, Nat.le_iff_lt_or_eq]
    | _ => simp [Has, addStack]
  left m other := by
    cases m with
    | stack k =>
        refine (stack_addStack_eq s n k).trans (if_neg fun same => other ?_)
        exact congrArg Node.stack (congrArg StackId.mk same)
    | _ => rfl

theorem born_addExpression (s : Store) (n : ExpressionNode) :
    Born (.expression (s.addExpression n).1) s (s.addExpression n).2 where
  new := Nat.lt_irrefl _
  has m := by
    cases m with
    | expression e =>
        obtain ⟨i⟩ := e
        simp [Has, addExpression, Table.size_push, Nat.le_iff_lt_or_eq]
    | _ => simp [Has, addExpression]
  left m other := by
    cases m with
    | expression e =>
        refine (Table.get_push n e.index).trans (if_neg fun same => other ?_)
        exact congrArg Node.expression (congrArg ExpressionId.mk same)
    | _ => rfl

theorem born_addCall (s : Store) (n : CallNode) :
    Born (.call (s.addCall n).1) s (s.addCall n).2 where
  new := Nat.lt_irrefl _
  has m := by
    cases m with
    | call c =>
        obtain ⟨i⟩ := c
        simp [Has, addCall, Table.size_push, Nat.le_iff_lt_or_eq]
    | _ => simp [Has, addCall]
  left m other := by
    cases m with
    | call c =>
        refine (Table.get_push n c.index).trans (if_neg fun same => other ?_)
        exact congrArg Node.call (congrArg CallId.mk same)
    | _ => rfl

/-- An element that is new is the new node, if it is there. -/
theorem Born.eq_of_new (h : Born n s t) {e : Element} (new : ¬s.InStore e) (there : t.InStore e) :
    e = n.element := by
  have leaf := not_isProducer_of_isSolid (isSolid_of_not_inStore new)
  cases e with
  | gap g => exact absurd trivial new
  | expression x => cases leaf
  | call c => cases leaf
  | _ =>
      rcases (h.has _).1 (meets_of_inStore there leaf _ rfl) with old | rfl
      · exact absurd old new
      · rfl

theorem Born.extends (h : Born n s t) (wf : s.WellFormed)
    (merge : ∀ c, n = .cell c → 1 ≤ (t.cell c).merge.rows ∧ 1 ≤ (t.cell c).merge.cols)
    (closed : ∀ m ∈ t.holds n, s.Has m) : Extends s t where
  held e := h.grown.inStore
  children e := h.grown.children
  fresh e child new below := by
    obtain rfl := h.eq_of_new new (inStore_of_child below)
    refine inStore_of_meets fun m hm => closed m ?_
    obtain ⟨k, hk, -, holds⟩ := mem_holds below hm
    rw [Node.node?_element, Option.mem_some_iff] at hk
    rwa [hk]
  merge c old := by rw [show t.cell c = s.cell c from h.grown.left (.cell c) old]
  merges c new := by
    by_cases same : n = .cell c
    · exact merge c same
    · rw [show t.cell c = s.cell c from h.left (.cell c) (Ne.symm same)]
      exact wf.merges c

/-- A new node that holds what it may hold leaves a store tidy. -/
theorem Tidy.born (h : s.Tidy use) (born : Born n s t)
    (merge : ∀ c, n = .cell c → 1 ≤ (t.cell c).merge.rows ∧ 1 ≤ (t.cell c).merge.cols)
    (holds : ∀ m ∈ t.holds n, s.AtHand use m)
    (takes : ∀ child ∈ t.children n.element, t.Takes n.element child)
    (blank : ∀ v, n = .vector v → (t.vector v).headerInserted = false) : t.Tidy use where
  wf := (born.extends h.wf merge fun m hm => (holds m hm).1).wellFormed h.wf
  unborn m outside := h.unborn m fun old => outside (born.grown.has m old)
  holds m used k hk := by
    by_cases new : m = n
    · subst new
      exact (holds k hk).later born.grown
    · rw [(born.left m new).holds] at hk
      exact (h.holds m used k hk).later born.grown
  takes e used child below := by
    by_cases old : s.InStore e
    · have leaf := not_isProducer_of_isContainer (isContainer_of_child below)
      have here := born.grown.element (meets_of_inStore old leaf)
      rw [here.children] at below
      have inside := (h.child used below).imp fun _ both => both.1
      exact (h.takes e used child below).congr here.orientation?
        (born.grown.element inside).orientation?
    · obtain rfl := born.eq_of_new old (inStore_of_child below)
      exact takes child below
  headed v used inserted := by
    by_cases new : n = .vector v
    · rw [blank v new] at inserted
      cases inserted
    · have same : t.vector v = s.vector v := born.left (.vector v) (Ne.symm new)
      rw [same] at inserted
      obtain ⟨c, first, header⟩ := h.headed v used inserted
      have here : t.cell c = s.cell c := born.grown.left (.cell c)
        (h.holds _ used _ (List.mem_filterMap.2 ⟨_, List.mem_of_head? first, rfl⟩)).1
      exact ⟨c, by rw [children, same]; exact first, by rw [here, header]⟩

/-- A new node without children leaves a store tidy if what it holds is at hand. -/
theorem Tidy.bare (h : s.Tidy use) (born : Born n s t) (plain : ∀ c, n ≠ .cell c)
    (other : ∀ v, n ≠ .vector v) (holds : ∀ m ∈ t.holds n, s.AtHand use m)
    (childless : t.children n.element = []) : t.Tidy use := by
  refine h.born born (fun c same => absurd same (plain c)) holds (fun child below => ?_)
    fun v same => absurd same (other v)
  rw [childless] at below
  cases below

/-! ## Dressing -/

/-- Whether two stores differ at most in what has no bearing on what nodes hold and may hold. -/
structure Dresses (s t : Store) : Prop where
  has : ∀ n, t.Has n ↔ s.Has n
  children : ∀ e, t.children e = s.children e
  holds : ∀ n, t.holds n = s.holds n
  axes : ∀ e, t.orientation? e = s.orientation? e
  inserted : ∀ v, (t.vector v).headerInserted = (s.vector v).headerInserted
  header : ∀ c, (t.cell c).isHeader = (s.cell c).isHeader
  merges : (∀ c, 1 ≤ (s.cell c).merge.rows ∧ 1 ≤ (s.cell c).merge.cols) →
    ∀ c, 1 ≤ (t.cell c).merge.rows ∧ 1 ≤ (t.cell c).merge.cols

theorem Dresses.refl (s : Store) : Dresses s s :=
  ⟨fun _ => .rfl, fun _ => rfl, fun _ => rfl, fun _ => rfl, fun _ => rfl, fun _ => rfl, id⟩

theorem Dresses.trans (first : Dresses s t) (second : Dresses t u) : Dresses s u where
  has n := (second.has n).trans (first.has n)
  children e := (second.children e).trans (first.children e)
  holds n := (second.holds n).trans (first.holds n)
  axes e := (second.axes e).trans (first.axes e)
  inserted v := (second.inserted v).trans (first.inserted v)
  header c := (second.header c).trans (first.header c)
  merges h := second.merges (first.merges h)

theorem chains_dresses : Chains Dresses :=
  ⟨.refl, .trans⟩

theorem Dresses.reach (h : Dresses s t) {a b : Element} (reach : Reach t a b) : Reach s a b := by
  induction reach with
  | root => exact .root
  | @child parent child _ below ih => exact ih.child (h.children parent ▸ below)

theorem Dresses.inStore (h : Dresses s t) (e : Element) : t.InStore e ↔ s.InStore e := by
  cases e with
  | cell c => exact h.has (.cell c)
  | vector v => exact h.has (.vector v)
  | frame f => exact h.has (.frame f)
  | stack k => exact h.has (.stack k)
  | _ => exact .rfl

theorem Dresses.wellFormed (h : Dresses s t) (wf : s.WellFormed) : t.WellFormed where
  acyclic parent child below reach :=
    wf.acyclic parent child (h.children parent ▸ below) (h.reach reach)
  closed e child below := (h.inStore child).2 (wf.closed e child (h.children e ▸ below))
  merges := h.merges wf.merges

theorem Owned.dress (h : Owned use s) (dresses : Dresses s t) : Owned use t where
  wf := dresses.wellFormed h.wf
  unborn n outside := h.unborn n fun old => outside ((dresses.has n).2 old)
  holds n used m hm := by
    rw [dresses.holds] at hm
    exact (h.holds n used m hm).imp (dresses.has m).2 id

theorem Sound.dress (h : Sound use s) (dresses : Dresses s t) : Sound use t where
  takes e used child below := (h.takes e used child (dresses.children e ▸ below)).congr
    (dresses.axes e) (dresses.axes child)
  headed v used inserted := by
    rw [dresses.inserted] at inserted
    obtain ⟨c, first, header⟩ := h.headed v used inserted
    exact ⟨c, by rw [dresses.children, first], by rw [dresses.header, header]⟩

theorem Tidy.dress (h : s.Tidy use) (dresses : Dresses s t) : t.Tidy use :=
  ⟨h.toOwned.dress dresses, h.toSound.dress dresses⟩

theorem dresses_updateCell (s : Store) (c : CellId) {f : CellNode → CellNode}
    (formula : ∀ n, (f n).formula = n.formula) (header : ∀ n, (f n).isHeader = n.isHeader)
    (merge : ∀ n, 1 ≤ n.merge.rows ∧ 1 ≤ n.merge.cols →
      1 ≤ (f n).merge.rows ∧ 1 ≤ (f n).merge.cols) : Dresses s (s.updateCell c f) := by
  have cases := fun d => cell_updateCell_cases s c d f
  refine ⟨fun n => ?_, fun e => children_updateCell s c f e, fun n => ?_, fun e => ?_,
    fun v => rfl, fun d => ?_, fun merges d => ?_⟩
  · cases n <;> simp [Has, updateCell]
  · cases n with
    | cell d => rcases cases d with h | h <;> simp [Store.holds, h, formula]
    | _ => rfl
  · cases e <;> rfl
  · rcases cases d with h | h <;> simp [h, header]
  · rcases cases d with h | h
    · exact h ▸ merges d
    · exact h ▸ merge _ (merges d)

theorem dresses_updateVector (s : Store) (v : VectorId) {f : VectorNode → VectorNode}
    (same : ∀ n, (f n).children = n.children) (axis : ∀ n, (f n).orientation = n.orientation)
    (inserted : ∀ n, (f n).headerInserted = n.headerInserted) : Dresses s (s.updateVector v f) := by
  have cases := fun w => vector_updateVector_cases s v w f
  refine ⟨fun n => ?_, fun e => ?_, fun n => ?_, fun e => ?_, fun w => ?_, fun c => rfl, id⟩
  · cases n <;> simp [Has, updateVector]
  · cases e with
    | vector w => rcases cases w with h | h <;> simp [Store.children, h, same]
    | _ => rfl
  · cases n with
    | vector w => rcases cases w with h | h <;> simp [Store.holds, h, same]
    | _ => rfl
  · cases e with
    | vector w => rcases cases w with h | h <;> simp [orientation?, h, axis]
    | _ => rfl
  · rcases cases w with h | h <;> simp [h, inserted]

theorem dresses_updateFrame (s : Store) (g : FrameId) {f : FrameNode → FrameNode}
    (same : ∀ n, (f n).children = n.children) (axis : ∀ n, (f n).orientation = n.orientation) :
    Dresses s (s.updateFrame g f) := by
  have cases := fun h => frame_updateFrame_cases s g h f
  refine ⟨fun n => ?_, fun e => ?_, fun n => ?_, fun e => ?_, fun v => rfl, fun c => rfl, id⟩
  · cases n <;> simp [Has, updateFrame]
  · cases e with
    | frame h => rcases cases h with h | h <;> simp [Store.children, h, same]
    | _ => rfl
  · cases n with
    | frame h => rcases cases h with h | h <;> simp [Store.holds, h, same]
    | _ => rfl
  · cases e with
    | frame h => rcases cases h with h | h <;> simp [orientation?, h, axis]
    | _ => rfl

theorem dresses_updateStack (s : Store) (k : StackId) {f : StackNode → StackNode}
    (same : ∀ n, (f n).children = n.children) (axis : ∀ n, (f n).orientation = n.orientation) :
    Dresses s (s.updateStack k f) := by
  have cases := fun l => stack_updateStack_cases s k l f
  refine ⟨fun n => ?_, fun e => ?_, fun n => ?_, fun e => ?_, fun v => rfl, fun c => rfl, id⟩
  · cases n <;> simp [Has, updateStack]
  · cases e with
    | stack l => rcases cases l with h | h <;> simp [Store.children, h, same]
    | _ => rfl
  · cases n with
    | stack l => rcases cases l with h | h <;> simp [Store.holds, h, same]
    | _ => rfl
  · cases e with
    | stack l => rcases cases l with h | h <;> simp [orientation?, h, axis]
    | _ => rfl

theorem dresses_updateExpression (s : Store) (x : ExpressionId) {f : ExpressionNode → ExpressionNode}
    (bound : ∀ n, (f n).bound = n.bound) : Dresses s (s.updateExpression x f) := by
  refine ⟨fun n => ?_, fun e => ?_, fun n => ?_, fun e => ?_, fun v => rfl, fun c => rfl, id⟩
  · cases n <;> simp [Has, updateExpression]
  · cases e <;> rfl
  · cases n with
    | expression y =>
        rcases expression_updateExpression_cases s x y f with h | h <;>
          simp [Store.holds, h, bound]
    | _ => rfl
  · cases e <;> rfl

theorem dresses_updateCall (s : Store) (c : CallId) {f : CallNode → CallNode}
    (args : ∀ n, (f n).args = n.args) : Dresses s (s.updateCall c f) := by
  refine ⟨fun n => ?_, fun e => ?_, fun n => ?_, fun e => ?_, fun v => rfl, fun c => rfl, id⟩
  · cases n <;> simp [Has, updateCall]
  · cases e <;> rfl
  · cases n with
    | call d =>
        have cases : (s.updateCall c f).call d = s.call d ∨
            (s.updateCall c f).call d = f (s.call d) := Table.get_update_cases c.index d.index
        rcases cases with h | h <;> simp [Store.holds, h, args]
    | _ => rfl
  · cases e <;> rfl

theorem dresses_updateAttributes (s : Store) (e : Element) (f : Attributes → Attributes) :
    Dresses s (s.updateAttributes e f) := by
  cases e with
  | vector v => exact dresses_updateVector s v (fun _ => rfl) (fun _ => rfl) fun _ => rfl
  | frame g => exact dresses_updateFrame s g (fun _ => rfl) fun _ => rfl
  | stack k => exact dresses_updateStack s k (fun _ => rfl) fun _ => rfl
  | _ => exact .refl s

end Store

end Spreadsheet
