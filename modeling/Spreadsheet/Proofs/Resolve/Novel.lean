import Spreadsheet.Proofs.Resolve.Advance
import Spreadsheet.Proofs.Resolve.Places

/-!
# New down to the cells

What a producer makes is new from its root down to its cells: no node in it was there before.  All
nodes that were there before are left exactly as they are, also where making it fails halfway.
-/

namespace Spreadsheet

open Store

namespace Store

variable {s t u : Store}

/-- Whether the containers that are new since an earlier store hold new elements only. -/
structure Brings (s t : Store) : Prop where
  held : ∀ e, s.InStore e → t.InStore e
  fresh : ∀ e child, ¬s.InStore e → child ∈ t.children e → ¬s.InStore child

theorem Brings.refl (s : Store) : Brings s s where
  held _ he := he
  fresh _ _ new below := absurd (inStore_of_child below) new

theorem Brings.not_inStore_of_reach (h : Brings s t) {e x : Element} (new : ¬s.InStore e)
    (reach : Reach t e x) : ¬s.InStore x := by
  induction reach with
  | root => exact new
  | child _ below ih => exact h.fresh _ _ ih below

theorem Brings.alike (h : Brings s t) (alike : Alike t u) : Brings s u where
  held e he := (alike.inStore e).2 (h.held e he)
  fresh e child new below := h.fresh e child new (alike.children e ▸ below)

theorem Brings.since_alike (alike : Alike s t) (h : Brings t u) : Brings s u where
  held e he := h.held e ((alike.inStore e).2 he)
  fresh e child new below old :=
    h.fresh e child (mt (alike.inStore e).1 new) below ((alike.inStore child).2 old)

theorem isSolid_of_not_inStore {e : Element} (new : ¬s.InStore e) : e.isSolid = true := by
  cases e <;> first | rfl | exact absurd trivial new

/-! ## Leaving nodes as they are -/

/-- Whether the node of an element is in the same state in two stores. -/
def Left (s t : Store) : Element → Prop
  | .cell c => t.cell c = s.cell c
  | .vector v => t.vector v = s.vector v
  | .frame f => t.frame f = s.frame f
  | .stack k => t.stack k = s.stack k
  | .gap _ => True
  | .expression x => t.expression x = s.expression x
  | .call c => t.call c = s.call c

theorem Left.refl (s : Store) (e : Element) : Left s s e := by
  cases e <;> first | rfl | trivial

theorem Left.trans {e : Element} (first : Left s t e) (second : Left t u e) : Left s u e := by
  cases e <;> first | trivial | exact Eq.trans second first

theorem Left.children {e : Element} (h : Left s t e) : t.children e = s.children e := by
  cases e with
  | vector v => exact congrArg VectorNode.children h
  | frame f => exact congrArg FrameNode.children h
  | stack k => exact congrArg StackNode.children h
  | _ => rfl

/-- Whether nothing that is older than a store has changed, and what is new holds new elements only. -/
structure Spares (s t : Store) : Prop extends Brings s t where
  left : ∀ e, s.InStore e → Left s t e

theorem Spares.refl (s : Store) : Spares s s :=
  ⟨.refl s, fun e _ => .refl s e⟩

theorem Spares.children (h : Spares s t) {e : Element} (he : s.InStore e) :
    t.children e = s.children e :=
  (h.left e he).children

theorem Spares.expression (h : Spares s t) (x : ExpressionId) : t.expression x = s.expression x :=
  h.left (.expression x) trivial

theorem Spares.addCell (h : Spares s t) (n : CellNode) : Spares s (t.addCell n).2 where
  held e he := (advances_addCell t n).held e (h.held e he)
  fresh e child new below := by
    rw [children_addCell] at below
    exact h.fresh e child new below
  left e he := by
    refine (h.left e he).trans ?_
    cases e with
    | cell c => exact (cell_addCell_eq t n c).trans (if_neg (Nat.ne_of_lt (h.held _ he)))
    | gap g => trivial
    | _ => exact rfl

theorem Spares.addVector (h : Spares s t) {n : VectorNode} (new : ∀ z ∈ n.children, ¬s.InStore z) :
    Spares s (t.addVector n).2 where
  held e he :=
    (advances_addVector t fun z hz => isSolid_of_not_inStore (new z hz)).held e (h.held e he)
  fresh e child old below := by
    cases e with
    | vector v =>
        rw [Store.children, vector_addVector_eq] at below
        split at below
        case isTrue => exact new child below
        case isFalse => exact h.fresh (.vector v) child old below
    | _ => exact h.fresh _ child old below
  left e he := by
    refine (h.left e he).trans ?_
    cases e with
    | vector v => exact (vector_addVector_eq t n v).trans (if_neg (Nat.ne_of_lt (h.held _ he)))
    | gap g => trivial
    | _ => exact rfl

theorem Spares.addFrame (h : Spares s t) {n : FrameNode} (new : ∀ z ∈ n.children, ¬s.InStore z) :
    Spares s (t.addFrame n).2 where
  held e he :=
    (advances_addFrame t fun z hz => isSolid_of_not_inStore (new z hz)).held e (h.held e he)
  fresh e child old below := by
    cases e with
    | frame f =>
        rw [Store.children, frame_addFrame_eq] at below
        split at below
        case isTrue => exact new child below
        case isFalse => exact h.fresh (.frame f) child old below
    | _ => exact h.fresh _ child old below
  left e he := by
    refine (h.left e he).trans ?_
    cases e with
    | frame f => exact (frame_addFrame_eq t n f).trans (if_neg (Nat.ne_of_lt (h.held _ he)))
    | gap g => trivial
    | _ => exact rfl

/-- Changing one node that is new, but for its children. -/
theorem Spares.change (h : Spares s t) {e : Element} (new : ¬s.InStore e) (alike : Alike t u)
    (others : ∀ x, x ≠ e → Left t u x) : Spares s u where
  toBrings := h.toBrings.alike alike
  left x hx := (h.left x hx).trans (others x fun same => new (same ▸ hx))

theorem left_updateCell (s : Store) {c : CellId} (f : CellNode → CellNode) {x : Element}
    (ne : x ≠ .cell c) : Left s (s.updateCell c f) x := by
  cases x with
  | cell d => exact cell_updateCell_of_ne s f fun same => ne (same ▸ rfl)
  | gap g => trivial
  | _ => exact rfl

theorem left_updateVector (s : Store) {v : VectorId} (f : VectorNode → VectorNode) {x : Element}
    (ne : x ≠ .vector v) : Left s (s.updateVector v f) x := by
  cases x with
  | vector w => exact vector_updateVector_of_ne s f fun same => ne (same ▸ rfl)
  | gap g => trivial
  | _ => exact rfl

theorem left_updateFrame (s : Store) {g : FrameId} (f : FrameNode → FrameNode) {x : Element}
    (ne : x ≠ .frame g) : Left s (s.updateFrame g f) x := by
  cases x with
  | frame h => exact frame_updateFrame_of_ne s f fun same => ne (same ▸ rfl)
  | gap g => trivial
  | _ => exact rfl

theorem left_updateStack (s : Store) {k : StackId} (f : StackNode → StackNode) {x : Element}
    (ne : x ≠ .stack k) : Left s (s.updateStack k f) x := by
  cases x with
  | stack l => exact stack_updateStack_of_ne s f fun same => ne (same ▸ rfl)
  | gap g => trivial
  | _ => exact rfl

theorem left_updateAttributes (s : Store) {e x : Element} (f : Attributes → Attributes)
    (ne : x ≠ e) : Left s (s.updateAttributes e f) x := by
  cases e with
  | vector v => exact left_updateVector s _ ne
  | frame g => exact left_updateFrame s _ ne
  | stack k => exact left_updateStack s _ ne
  | _ => exact .refl s x

theorem left_inheritStyles (d : Declared) {e x : Element} (s : Store) (ne : x ≠ e) :
    Left s (s.inheritStyles d e) x := by
  cases e with
  | cell c => exact left_updateCell s _ ne
  | _ => exact left_updateAttributes s _ ne

end Store

/-! ## Making elements -/

namespace StoreM

variable {α : Type} {s : Store}

/-- Whether an operation makes an element that is new down to its cells, and changes nothing old. -/
def Making (s : Store) (toElement : α → Element) (m : StoreM α) : Prop :=
  ∀ t a u, Spares s t → Leads m t a u → Spares s u ∧ ¬s.InStore (toElement a)

theorem newCell_making (n : CellNode) : Making s .cell (newCell n) := by
  intro t c u spares run
  obtain ⟨rfl, rfl⟩ := leads_modifyGet.1 run
  exact ⟨spares.addCell n, fun old => Nat.lt_irrefl _ (spares.held _ old)⟩

theorem newVector_making {n : VectorNode} (new : ∀ z ∈ n.children, ¬s.InStore z) :
    Making s .vector (newVector n) := by
  intro t v u spares run
  obtain ⟨rfl, rfl⟩ := leads_modifyGet.1 run
  exact ⟨spares.addVector new, fun old => not_inStore_addVector t n (spares.held _ old)⟩

theorem newFrame_making {n : FrameNode} (new : ∀ z ∈ n.children, ¬s.InStore z) :
    Making s .frame (newFrame n) := by
  intro t f u spares run
  obtain ⟨rfl, rfl⟩ := leads_modifyGet.1 run
  exact ⟨spares.addFrame new, fun old => not_inStore_addFrame t n (spares.held _ old)⟩

theorem Making.of_get {toElement : α → Element} {f : Store → StoreM α}
    (h : ∀ t, Making s toElement (f t)) : Making s toElement (get >>= f) :=
  fun t => h t t

theorem Making.map {toElement : α → Element} {m : StoreM α} (h : Making s toElement m) :
    Making s id (do return toElement (← m)) := by
  intro t e u spares run
  obtain ⟨a, _, made, last⟩ := leads_bind.1 run
  obtain ⟨rfl, rfl⟩ := leads_pure.1 last
  exact h t a _ spares made

/-- What is made of a list of new elements. -/
theorem Making.of_mapM {β γ : Type} {toElement : β → Element} {fromElement : γ → Element}
    {f : α → StoreM β} {l : List α} {g : List β → StoreM γ} (h : ∀ a, Making s toElement (f a))
    (hg : ∀ bs, (∀ z ∈ bs.map toElement, ¬s.InStore z) → Making s fromElement (g bs)) :
    Making s fromElement (l.mapM f >>= g) := by
  intro t c u spares run
  obtain ⟨bs, m, made, last⟩ := leads_bind.1 run
  obtain ⟨spared, new, -⟩ := made.mapM (Spares s) (fun _ b _ => ¬s.InStore (toElement b)) spares
    fun a _ t b u spares step =>
      ⟨(h a t b u spares step).1, (h a t b u spares step).2, fun _ _ old => old⟩
  refine hg bs (fun z hz => ?_) m c u spared last
  obtain ⟨b, hb, rfl⟩ := List.mem_map.1 hz
  obtain ⟨_, -, fresh⟩ := forall₂_right new hb
  exact fresh

theorem copyCell_making (c : CellId) : Making s .cell (copyCell c) :=
  .of_get fun _ => newCell_making _

theorem copyVector_making (v : VectorId) : Making s .vector (copyVector v) :=
  .of_get fun _ => .of_get fun _ => .of_mapM copyCell_making fun _ new => newVector_making new

theorem copyFrame_making (f : FrameId) : Making s .frame (copyFrame f) :=
  .of_get fun _ => .of_get fun _ => .of_mapM copyVector_making fun _ new => newFrame_making new

theorem newFormulaCell_making (f : Formula) : Making s .cell (newFormulaCell f) := by
  cases f <;> exact newCell_making _

theorem vectorOf_making (t : Series) : Making s .vector (vectorOf t) :=
  .of_mapM newFormulaCell_making fun _ new => newVector_making new

theorem promote_making {c : CellId} {o : Orientation} (new : ¬s.InStore (.cell c)) :
    Making s .vector (promote c o) :=
  .of_get fun _ => newVector_making fun _ hz => List.mem_singleton.1 hz ▸ new

theorem elementOf_making (g : Grid) : Making s id (elementOf g) := by
  cases g with
  | scalar f => exact (newFormulaCell_making f).map
  | series t => exact (vectorOf_making t).map
  | table vectors o =>
      exact .of_mapM vectorOf_making fun _ new => (newFrame_making new).map

end StoreM

/-! ## Producing and fitting -/

namespace BuildM

variable {α β : Type} {b b' : Build} {s : Store}

/-- Whether an operation changes nothing older than a store, whether or not it fails, and gives an
answer of some kind if it succeeds. -/
def Sparing (s : Store) (m : BuildM α) (b : Build) (Q : α → Prop) : Prop :=
  Ensures m b (fun t => Spares s t.store) fun a _ => Q a

theorem Sparing.bind {m : BuildM α} {f : α → BuildM β} {P : α → Prop} {Q : β → Prop}
    (hm : Sparing s m b P) (hf : ∀ a t, Spares s t.store → P a → Sparing s (f a) t Q) :
    Sparing s (m >>= f) b Q :=
  Ensures.bind hm hf

theorem Sparing.pure {a : α} {Q : α → Prop} (h : Spares s b.store) (hq : Q a) :
    Sparing s (pure a) b Q :=
  Ensures.pure h hq

theorem Sparing.throw {e : SheetError} {Q : α → Prop} (h : Spares s b.store) :
    Sparing s (throw e) b Q :=
  Ensures.throw h

theorem Sparing.changeStore {f : Store → Store} (h : Spares s (f b.store)) :
    Sparing s (changeStore f) b fun _ => True :=
  Ensures.modify h trivial

theorem Sparing.ofExcept {x : Except SheetError α} (h : Spares s b.store) :
    Sparing s (ofExcept x) b fun _ => True := by
  cases x with
  | ok a => exact .pure h trivial
  | error e => exact .throw h

theorem Sparing.refuse {container child : Element} {Q : α → Prop} (h : Spares s b.store) :
    Sparing s (refuse container child) b Q :=
  Ensures.get_bind (Ensures.throw h)

theorem Sparing.liftStore {m : StoreM α} {toElement : α → Element}
    (making : StoreM.Making s toElement m) (h : Spares s b.store) :
    Sparing s (liftStore m) b fun a => ¬s.InStore (toElement a) :=
  ensures_liftStore fun a t => making b.store a t h

theorem elementFor_sparing {v : Value} {reference : Bool} (h : Spares s b.store) :
    Sparing s (elementFor v reference) b fun e => ¬s.InStore e := by
  have copied : ∀ {ι : Type} {m : StoreM ι} {toElement : ι → Element},
      StoreM.Making s toElement m →
      Sparing s (do return toElement (← liftStore m)) b fun e => ¬s.InStore e :=
    fun making => (Sparing.liftStore making h).bind fun _ _ spared new => .pure spared new
  unfold elementFor
  apply Ensures.get_bind
  split
  · exact Sparing.liftStore (StoreM.elementOf_making _) h
  · exact Sparing.throw h
  · exact copied (StoreM.copyCell_making _)
  · exact copied (StoreM.copyVector_making _)
  · exact copied (StoreM.copyFrame_making _)
  · apply (Sparing.ofExcept h).bind
    intro g t spared _
    exact Sparing.liftStore (StoreM.elementOf_making g) spared

theorem registerId_sparing (key : String) (e : Element) (h : Spares s b.store) :
    Sparing s (registerId key e) b fun _ => True := by
  unfold registerId
  split
  · exact Ensures.modify h trivial
  · exact .throw h

theorem registerHeader_sparing (key : String) (e : Element) (h : Spares s b.store) :
    Sparing s (registerHeader key e) b fun _ => True := by
  unfold registerHeader
  split
  · exact Ensures.modify h trivial
  · exact .pure h trivial

theorem setId_sparing {e : Element} (new : ¬s.InStore e) (id : String) (h : Spares s b.store) :
    Sparing s (setId e id) b fun _ => True := by
  refine (registerId_sparing id e h).bind fun _ t spared _ => .changeStore ?_
  cases e with
  | cell c =>
      exact spared.change new (alike_updateCell _ c fun _ => (rfl)) fun x => left_updateCell _ _
  | expression x => exact absurd trivial new
  | call c => exact absurd trivial new
  | _ => exact spared.change new (alike_updateAttributes _ _ _) fun x => left_updateAttributes _ _

theorem setHeader_sparing {e : Element} (new : ¬s.InStore e) (header : String)
    (h : Spares s b.store) : Sparing s (setHeader e header) b fun _ => True := by
  refine (registerHeader_sparing header e h).bind fun _ t spared _ => .changeStore ?_
  cases e with
  | cell c =>
      exact spared.change new (alike_updateCell _ c fun _ => (rfl)) fun x => left_updateCell _ _
  | vector v =>
      exact spared.change new (alike_updateVector _ v fun _ => (rfl)) fun x => left_updateVector _ _
  | expression x => exact absurd trivial new
  | call c => exact absurd trivial new
  | _ => exact spared

theorem takeName_sparing {bare : Store → Bool} {set register : String → BuildM Unit}
    (hset : ∀ name, Sparing s (set name) b fun _ => True)
    (hregister : ∀ name, Sparing s (register name) b fun _ => True) (name : Option String)
    (h : Spares s b.store) : Sparing s (takeName bare set register name) b fun _ => True := by
  cases name with
  | none => exact .pure h trivial
  | some name => exact Ensures.get_bind (Ensures.ite (fun _ => hset name) fun _ => hregister name)

theorem applyDeclared_sparing (d : Declared) {e : Element} (new : ¬s.InStore e)
    (h : Spares s b.store) : Sparing s (applyDeclared d e) b fun _ => True := by
  rw [applyDeclared_eq]
  apply (takeName_sparing (fun id => setId_sparing new id h)
    (fun id => registerId_sparing id e h) d.id h).bind
  intro _ t spared _
  apply (takeName_sparing (fun header => setHeader_sparing new header spared)
    (fun header => registerHeader_sparing header e spared) d.header spared).bind
  intro _ u spared' _
  apply Sparing.changeStore
  exact spared'.change new (alike_inheritStyles d e _) fun x => left_inheritStyles d _

/-- A producer that is evaluated makes a new element, and changes nothing that was there. -/
theorem produced_sparing {x : Except SheetError Value} {reference : Bool} {d : Declared}
    (h : Spares s b.store) : Sparing s (do
      let element ← elementFor (← ofExcept x) reference
      applyDeclared d element
      return element) b fun e => ¬s.InStore e := by
  apply (Sparing.ofExcept h).bind
  intro value t spared _
  apply (elementFor_sparing spared).bind
  intro e u spared' new
  exact (applyDeclared_sparing d new spared').bind fun _ _ spared'' _ => .pure spared'' new

theorem turnVectors_sparing {o : Orientation} {vectors : List VectorId}
    (new : ∀ v ∈ vectors, ¬s.InStore (.vector v)) (h : Spares s b.store) :
    Sparing s (turnVectors o vectors) b fun l => ∀ z ∈ l, ¬s.InStore z := by
  have turned : ∀ (l : List VectorId) (t : Store), (∀ v ∈ l, ¬s.InStore (.vector v)) → Spares s t →
      Spares s (l.foldl (fun s v => s.updateVector v ({ · with orientation := o })) t) := by
    intro l
    induction l with
    | nil => exact fun _ _ spared => spared
    | cons v rest ih =>
        intro t new spared
        apply ih _ fun w hw => new w (List.mem_cons_of_mem v hw)
        exact spared.change (new v (by simp)) (alike_updateVector t v fun _ => (rfl))
          fun x => left_updateVector t _
  refine Sparing.bind (.changeStore (turned vectors b.store new h)) fun _ t spared _ =>
    .pure spared fun z hz => ?_
  obtain ⟨v, hv, rfl⟩ := List.mem_map.1 hz
  exact new v hv

/-- What is made of a new element to fit a container is new. -/
theorem fit_sparing {container produced : Element} (new : ¬s.InStore produced)
    (h : Spares s b.store) :
    Sparing s (fit container produced) b fun l => ∀ z ∈ l, ¬s.InStore z := by
  have single : ∀ {e : Element}, ¬s.InStore e → ∀ z ∈ [e], ¬s.InStore z :=
    fun new z hz => List.mem_singleton.1 hz ▸ new
  have alone : ∀ {c : CellId} {o : Orientation}, ¬s.InStore (.cell c) →
      Sparing s (do return [← promoted c o]) b fun l => ∀ z ∈ l, ¬s.InStore z := by
    intro c o new
    apply Sparing.bind (P := fun e => ¬s.InStore e)
    · exact (Sparing.liftStore (StoreM.promote_making new) h).bind fun _ _ spared made =>
        .pure spared made
    · exact fun e t spared made => .pure spared (single made)
  unfold fit
  apply Ensures.get_bind
  split
  · exact Sparing.pure h (single new)
  · exact Sparing.pure h fun z hz => h.fresh _ z new (List.mem_of_mem_drop hz)
  · exact Sparing.refuse h
  · exact alone new
  · exact turnVectors_sparing (fun v hv => List.mem_singleton.1 hv ▸ new) h
  · exact turnVectors_sparing (fun v hv => h.fresh _ _ new (mem_frameVectors.1 hv)) h
  · exact Sparing.refuse h
  · exact alone new
  · exact Sparing.pure h (single new)

end BuildM

end Spreadsheet
