import Spreadsheet.Proofs.Layout.Shapes

/-!
# Filling a vector around its header

While a vector is filled, its header may become a cell at any moment.  Everything that is read off
the vector leaves that cell out or counts it whether or not it is there yet, so nobody can tell when
it happened: the vector answers like the plain list of what was pushed and inserted.
-/

namespace Spreadsheet

open Store

/-! ## Steps -/

/-- A step in filling a vector. -/
inductive Filling where
  | push (item : Element)
  | insert (position : Nat) (item : Element)
  | insertHeader

namespace Filling

/-- Take a step.  What a vector does not take leaves it as it is. -/
def run (v : VectorId) : Filling → BuildM Unit
  | .push item => BuildM.push (.vector v) item
  | .insert position item => BuildM.insert (.vector v) position item
  | .insertHeader => BuildM.liftStore (StoreM.insertHeader v)

/-- Take one step after the other, also where one of them fails. -/
def runAll (v : VectorId) (steps : List Filling) (b : Build) : Build :=
  steps.foldl (fun b step => (step.run v b : Except SheetError Unit × Build).2) b

/-- The same step on a plain list, which has no header. -/
def onList (l : List Element) : Filling → List Element
  | .push item => if item.isContainer then l else l ++ [item]
  | .insert position item => if item.isContainer then l else l.insertIdx (min position l.length) item
  | .insertHeader => l

/-- The element that a step brings. -/
def item? : Filling → Option Element
  | .push item | .insert _ item => some item
  | .insertHeader => none

end Filling

/-! ## Vectors with a header -/

namespace Store

variable {s t : Store} {v : VectorId} {l : List Element}

/-- Whether a vector has a header and holds what it may hold, a header cell first if there is one. -/
structure Labelled (s : Store) (v : VectorId) : Prop where
  there : s.InStore (.vector v)
  header : (s.vector v).header.isSome = true
  holds : ∀ child ∈ s.children (.vector v), s.InStore child ∧ child.isContainer = false
  headFirst : s.HeadFirst v

theorem Regular.labelled (h : s.Regular) (there : s.InStore (.vector v))
    (header : (s.vector v).header.isSome = true) : s.Labelled v where
  there := there
  header := header
  holds child below := ⟨h.closed _ child below, h.takes _ child below⟩
  headFirst := h.headFirst v

/-- The content of a labelled vector stands behind nothing or behind one cell over one place. -/
inductive Front (s : Store) (v : VectorId) : List Element → Prop
  | pending (inserted : (s.vector v).headerInserted = false) : Front s v []
  | cell (c : CellId) (inserted : (s.vector v).headerInserted = true)
      (single : (s.cell c).merge = ⟨1, 1⟩) : Front s v [.cell c]

theorem Front.length {front : List Element} (h : s.Front v front) :
    front.length = (s.vector v).headerInserted.toNat := by
  cases h with
  | pending inserted => rw [inserted]; rfl
  | cell c inserted single => rw [inserted]; rfl

theorem Labelled.exists_front (h : s.Labelled v) :
    ∃ front, s.Front v front ∧ s.children (.vector v) = front ++ s.content v := by
  cases inserted : (s.vector v).headerInserted with
  | false =>
      refine ⟨[], .pending inserted, ?_⟩
      simp only [content, inserted, Bool.toNat_false, List.drop_zero, List.nil_append]
      rfl
  | true =>
      obtain ⟨c, first, single⟩ := h.headFirst inserted
      obtain ⟨rest, split⟩ := List.head?_eq_some_iff.1 first
      refine ⟨[.cell c], .cell c inserted single, ?_⟩
      have behind : s.content v = rest := by
        have split' : (s.vector v).children = .cell c :: rest := split
        simp only [content, inserted, Bool.toNat_true, split', List.drop_succ_cons, List.drop_zero]
      rw [split, behind]
      rfl

theorem content_eq_of_front {front : List Element} (h : s.Front v front)
    (split : s.children (.vector v) = front ++ l) : s.content v = l := by
  have split' : (s.vector v).children = front ++ l := split
  simp only [content, split', ← h.length, List.drop_left]

theorem labelled_of_front {front : List Element} (there : s.InStore (.vector v))
    (header : (s.vector v).header.isSome = true) (h : s.Front v front)
    (split : s.children (.vector v) = front ++ l)
    (holds : ∀ child ∈ front ++ l, s.InStore child ∧ child.isContainer = false) :
    s.Labelled v where
  there := there
  header := header
  holds child below := holds child (split ▸ below)
  headFirst inserted := by
    cases h with
    | pending pending => rw [pending] at inserted; cases inserted
    | cell c _ single => exact ⟨c, by rw [split]; rfl, single⟩

/-! ## Sizes -/

theorem extentWithin_of_not_isContainer {x : Element} (leaf : x.isContainer = false)
    (fuel more : Nat) : s.extentWithin fuel x = s.extentWithin more x := by
  cases x with
  | cell c => simp only [extentWithin]
  | gap g => simp only [extentWithin]
  | expression e => simp only [extentWithin]
  | call c => simp only [extentWithin]
  | _ => cases leaf

/-- The extent of a vector with a header over the elements that it holds. -/
def labelledExtent (s : Store) (o : Orientation) (l : List Element) : Extent :=
  let inner := stacked o (l.map s.extent)
  o.extent (o.along inner + 1) (max (o.across inner) 1)

theorem Labelled.extent_vector (h : s.Labelled v) : s.extent (.vector v) =
    s.extentOver ((s.children (.vector v)).map s.extent) (.vector v) := by
  have same : (s.children (.vector v)).map
      (s.extentWithin (s.vectors.size + s.frames.size + s.groups.size)) =
        (s.children (.vector v)).map s.extent :=
    List.map_congr_left fun child below =>
      extentWithin_of_not_isContainer (h.holds child below).2 _ _
  rw [← same]
  rfl

/-- The place of the header is counted once, whether it is still kept or already taken. -/
theorem Labelled.extent_eq (h : s.Labelled v) :
    s.extent (.vector v) = s.labelledExtent (s.vector v).orientation (s.content v) := by
  obtain ⟨front, isFront, split⟩ := h.exists_front
  rw [h.extent_vector, split]
  generalize s.content v = l
  cases isFront with
  | pending inserted =>
      simp only [List.nil_append, extentOver, pendingHeader, h.header, inserted, Bool.not_false,
        Bool.and_self, Bool.toNat_true, labelledExtent]
  | cell c inserted single =>
      have front : s.extent (.cell c) = ⟨1, 1⟩ := single
      have along : (s.vector v).orientation.along ⟨1, 1⟩ = 1 := by
        cases (s.vector v).orientation <;> rfl
      have across : (s.vector v).orientation.across ⟨1, 1⟩ = 1 := by
        cases (s.vector v).orientation <;> rfl
      simp only [List.cons_append, List.nil_append, List.map_cons, front, extentOver, pendingHeader,
        inserted, Bool.not_true, Bool.and_false, Bool.toNat_false, labelledExtent, stacked,
        Orientation.along_extent, Orientation.across_extent, Number.total_cons, along, across]
      congr 1
      · omega
      · refine le_antisymm (max_le ?_ (le_max_right _ _)) (max_le ?_ (le_max_right _ _))
        · refine foldl_max_le_iff.2 ⟨Nat.zero_le _, fun n hn => ?_⟩
          rcases List.mem_cons.1 hn with rfl | hn
          · exact le_max_right _ _
          · exact (le_foldl_max_of_mem hn).trans (le_max_left _ _)
        · exact (foldl_max_le_iff.2 ⟨Nat.zero_le _, fun n hn =>
            le_foldl_max_of_mem (List.mem_cons_of_mem 1 hn)⟩).trans (le_max_left _ _)

/-! ## What a vector shows -/

/-- Whether everything that is read off a vector with a header is read off a plain list, where the
names and the sizes of the elements are those in another store. -/
structure Shows (t : Store) (v : VectorId) (s : Store) (l : List Element) : Prop where
  content : t.content v = l
  length : t.vectorLength v = l.length
  shape : t.vectorShape v = l.length + 1
  cells : t.vectorCells v = l.filterMap asCell?
  childAt i : t.childAt? (.vector v) i = l[i]?
  withId name : (t.content v).find? (t.id? · == some name) = l.find? (s.id? · == some name)
  withHeader name :
    (t.content v).find? (t.header? · == some name) = l.find? (s.header? · == some name)
  childNamed name : t.childNamed? (.vector v) name =
    (l.find? (s.id? · == some name) <|> l.find? (s.header? · == some name))
  extent : t.extent (.vector v) = s.labelledExtent (s.vector v).orientation l

/-- Whether a vector has been filled with a list, and nothing that the list may hold has changed. -/
structure FilledWith (s t : Store) (v : VectorId) (l : List Element) : Prop where
  labelled : t.Labelled v
  content : t.content v = l
  known : ∀ x ∈ l, s.InStore x ∧ x.isContainer = false
  orientation : (t.vector v).orientation = (s.vector v).orientation
  held : ∀ x, s.InStore x → t.InStore x
  cell : ∀ c, s.InStore (.cell c) → t.cell c = s.cell c
  producers : t.expressions = s.expressions ∧ t.calls = s.calls

theorem Labelled.filledWith (h : s.Labelled v) : FilledWith s s v (s.content v) where
  labelled := h
  content := rfl
  known x hx := h.holds x (List.mem_of_mem_drop hx)
  orientation := rfl
  held _ := id
  cell _ _ := rfl
  producers := ⟨rfl, rfl⟩

theorem FilledWith.leaf (h : FilledWith s t v l) {x : Element} (hx : x ∈ l) :
    t.id? x = s.id? x ∧ t.header? x = s.header? x ∧ t.extent x = s.extent x := by
  obtain ⟨inside, leaf⟩ := h.known x hx
  cases x with
  | cell c =>
      have same := h.cell c inside
      exact ⟨congrArg CellNode.id same, congrArg CellNode.header same, congrArg CellNode.merge same⟩
  | gap g => exact ⟨rfl, rfl, rfl⟩
  | expression e =>
      have same : t.expression e = s.expression e := by
        rw [Store.expression, h.producers.1, Store.expression]
      exact ⟨congrArg (·.declared.id) same, congrArg (·.declared.header) same, rfl⟩
  | call c =>
      have same : t.call c = s.call c := by rw [Store.call, h.producers.2, Store.call]
      exact ⟨congrArg (·.declared.id) same, congrArg (·.declared.header) same, rfl⟩
  | _ => cases leaf

theorem find?_congr {α : Type} {p q : α → Bool} {l : List α} (same : ∀ a ∈ l, p a = q a) :
    l.find? p = l.find? q := by
  induction l with
  | nil => rfl
  | cons a l ih =>
      rw [List.find?_cons, List.find?_cons, same a (by simp),
        ih fun b hb => same b (List.mem_cons_of_mem a hb)]

theorem FilledWith.shows (h : FilledWith s t v l) : Shows t v s l := by
  obtain ⟨front, isFront, split⟩ := h.labelled.exists_front
  rw [h.content] at split
  have length : t.vectorLength v = l.length := by
    have split' : (t.vector v).children = front ++ l := split
    simp only [vectorLength, split', List.length_append, isFront.length, Nat.add_sub_cancel_left]
  have byId : ∀ name, l.find? (t.id? · == some name) = l.find? (s.id? · == some name) :=
    fun name => find?_congr fun x hx => by rw [(h.leaf hx).1]
  have byHeader : ∀ name,
      l.find? (t.header? · == some name) = l.find? (s.header? · == some name) :=
    fun name => find?_congr fun x hx => by rw [(h.leaf hx).2.1]
  exact
    { content := h.content
      length := length
      shape := by rw [vectorShape, length, h.labelled.header]; rfl
      cells := by rw [vectorCells, h.content]
      childAt := fun i => by rw [childAt?, namedChildren, h.content]
      withId := fun name => by rw [h.content, byId]
      withHeader := fun name => by rw [h.content, byHeader]
      childNamed := fun name => by
        simp only [childNamed?, namedChildren, h.content, byId, byHeader]
      extent := by
        have sizes : l.map t.extent = l.map s.extent :=
          List.map_congr_left fun x hx => (h.leaf hx).2.2
        rw [h.labelled.extent_eq, h.content, h.orientation, labelledExtent, sizes]
        rfl }

/-! ## Each step -/

/-- New content behind the header. -/
theorem FilledWith.refill (h : FilledWith s t v l) {front l' : List Element}
    (isFront : t.Front v front) (split : t.children (.vector v) = front ++ l)
    (known : ∀ x ∈ l', s.InStore x ∧ x.isContainer = false) :
    FilledWith s (t.setChildren (.vector v) (front ++ l')) v l' := by
  have self : (t.setChildren (.vector v) (front ++ l')).vector v =
      { t.vector v with children := front ++ l' } :=
    Table.get_update_self t.vectors (fun n => { n with children := front ++ l' }) h.labelled.there
  have inside : ∀ x, (t.setChildren (.vector v) (front ++ l')).InStore x ↔ t.InStore x :=
    (regroups_setChildren t (.vector v) (front ++ l')).inStore
  have children : (t.setChildren (.vector v) (front ++ l')).children (.vector v) = front ++ l' :=
    congrArg VectorNode.children self
  have isFront' : (t.setChildren (.vector v) (front ++ l')).Front v front := by
    cases isFront with
    | pending inserted => exact .pending (by rw [self]; exact inserted)
    | cell c inserted single => exact .cell c (by rw [self]; exact inserted) single
  refine
    { labelled := labelled_of_front ((inside _).2 h.labelled.there) ?_ isFront' children
        fun child below => ?_
      content := content_eq_of_front isFront' children
      known := known
      orientation := by rw [self]; exact h.orientation
      held := fun x hx => (inside x).2 (h.held x hx)
      cell := h.cell
      producers := h.producers }
  · rw [self]
    exact h.labelled.header
  · rw [inside]
    rcases List.mem_append.1 below with below | below
    · exact h.labelled.holds child (split ▸ List.mem_append_left l below)
    · exact ⟨h.held child (known child below).1, (known child below).2⟩

/-- A cell in front of the content is not content. -/
theorem FilledWith.withHeader (h : FilledWith s t v l)
    (pending : (t.vector v).headerInserted = false) {n : CellNode} (single : n.merge = ⟨1, 1⟩) :
    FilledWith s ((t.addCell n).2.updateVector v fun old =>
      { old with children := .cell (t.addCell n).1 :: old.children, headerInserted := true }) v l := by
  generalize hf : (fun old : VectorNode =>
    { old with children := .cell (t.addCell n).1 :: old.children, headerInserted := true }) = f
  have self : ((t.addCell n).2.updateVector v f).vector v = f (t.vector v) :=
    Table.get_update_self t.vectors f h.labelled.there
  have children : ((t.addCell n).2.updateVector v f).children (.vector v) =
      [.cell (t.addCell n).1] ++ l := by
    have plain : (t.vector v).children = l := by
      have whole := h.content
      simpa only [Store.content, pending, Bool.toNat_false, List.drop_zero] using whole
    rw [Store.children, self, ← hf, ← plain]
    rfl
  have isFront : ((t.addCell n).2.updateVector v f).Front v [.cell (t.addCell n).1] := by
    refine .cell _ ?_ ?_
    · rw [self, ← hf]
    · exact (congrArg CellNode.merge (cell_addCell t n)).trans single
  have held : ∀ x, t.InStore x → ((t.addCell n).2.updateVector v f).InStore x := fun x hx =>
    (inStore_updateVector _ v f x).2 ((adds_addCell t (by simp [single])).held x hx)
  refine
    { labelled := labelled_of_front (held _ h.labelled.there) ?_ isFront children
        fun child below => ?_
      content := content_eq_of_front isFront children
      known := h.known
      orientation := by rw [self, ← hf]; exact h.orientation
      held := fun x hx => held x (h.held x hx)
      cell := fun c hc => ?_
      producers := h.producers }
  · rw [self, ← hf]
    exact h.labelled.header
  · rcases List.mem_append.1 below with below | below
    · obtain rfl := List.mem_singleton.1 below
      exact ⟨(inStore_updateVector _ v f _).2 (inStore_addCell t n), rfl⟩
    · exact ⟨held child (h.held child (h.known child below).1), (h.known child below).2⟩
  · have old : c.index ≠ t.cells.size := Nat.ne_of_lt (h.held _ hc)
    exact ((Table.get_push n c.index).trans (if_neg old)).trans (h.cell c hc)

theorem FilledWith.insertHeader (h : FilledWith s t v l) {r : Unit} {u : Store}
    (led : Leads (StoreM.insertHeader v) t r u) : FilledWith s u v l := by
  simp only [StoreM.insertHeader, leads_bind, leads_get] at led
  obtain ⟨_, _, ⟨rfl, rfl⟩, led⟩ := led
  split at led
  case h_1 text pending _ =>
    simp only [StoreM.newCell, leads_bind, leads_modifyGet, leads_modify] at led
    obtain ⟨c, m, ⟨rfl, rfl⟩, rfl⟩ := led
    exact h.withHeader pending rfl
  case h_2 =>
    obtain ⟨-, rfl⟩ := leads_pure.1 led
    exact h

end Store

namespace Filling

variable {s : Store} {b : Build} {v : VectorId} {l : List Element}

/-- A position that does not count what stands in front. -/
theorem insertIdx_behind {α : Type} (front l : List α) (position : Nat) (a : α) :
    (front ++ l).insertIdx (min (position + front.length) (front ++ l).length) a =
      front ++ l.insertIdx (min position l.length) a := by
  induction front with
  | nil => rfl
  | cons x front ih =>
      have later : min (position + (front.length + 1)) ((front ++ l).length + 1) =
          min (position + front.length) (front ++ l).length + 1 := by omega
      rw [List.cons_append, List.length_cons, List.length_cons, later, List.insertIdx_succ_cons, ih,
        List.cons_append]

theorem mem_insertIdx_min {α : Type} {a x : α} {l : List α} {position : Nat}
    (h : x ∈ l.insertIdx (min position l.length) a) : x = a ∨ x ∈ l :=
  (List.mem_insertIdx (Nat.min_le_right position l.length)).1 h

/-- A vector takes whatever is no container. -/
theorem push_leaf (v : VectorId) {item : Element} (leaf : item.isContainer = false) (b : Build) :
    (BuildM.push (.vector v) item b : Except SheetError Unit × Build) = (.ok (), { b with
      store := b.store.setChildren (.vector v) (b.store.children (.vector v) ++ [item]) }) := by
  cases item with
  | cell c => rfl
  | gap g => rfl
  | expression e => rfl
  | call c => rfl
  | _ => cases leaf

theorem insert_leaf (v : VectorId) (position : Nat) {item : Element}
    (leaf : item.isContainer = false) (b : Build) :
    (BuildM.insert (.vector v) position item b : Except SheetError Unit × Build) = (.ok (), { b with
      store := b.store.setChildren (.vector v) ((b.store.children (.vector v)).insertIdx
        (min (position + (b.store.vector v).headerInserted.toNat)
          (b.store.children (.vector v)).length) item) }) := by
  cases item with
  | cell c => rfl
  | gap g => rfl
  | expression e => rfl
  | call c => rfl
  | _ => cases leaf

/-- A vector refuses containers and stays as it is. -/
theorem run_container (v : VectorId) {step : Filling} {item : Element} (brings : step.item? = some item)
    (container : item.isContainer = true) (b : Build) :
    ∃ e, (step.run v b : Except SheetError Unit × Build) = (.error e, b) := by
  cases step with
  | insertHeader => cases brings
  | push =>
      cases brings
      cases item with
      | vector | frame | stack => exact ⟨_, rfl⟩
      | _ => cases container
  | insert =>
      cases brings
      cases item with
      | vector | frame | stack => exact ⟨_, rfl⟩
      | _ => cases container

theorem onList_container {step : Filling} {item : Element} (brings : step.item? = some item)
    (container : item.isContainer = true) : onList l step = l := by
  cases step with
  | insertHeader => rfl
  | push | insert => cases brings; rw [onList, if_pos container]

/-- Each step on the vector is the step on the list. -/
theorem run_filledWith (h : FilledWith s b.store v l) (step : Filling)
    (known : ∀ item, step.item? = some item → s.InStore item) :
    FilledWith s (step.run v b : Except SheetError Unit × Build).2.store v (onList l step) := by
  obtain ⟨front, isFront, split⟩ := h.labelled.exists_front
  rw [h.content] at split
  cases brings : step.item? with
  | none =>
      cases step with
      | insertHeader => exact h.insertHeader (r := ()) (u := (StoreM.insertHeader v b.store).2) rfl
      | _ => cases brings
  | some item =>
      cases leaf : item.isContainer with
      | true =>
          obtain ⟨e, refused⟩ := run_container v brings leaf b
          rw [refused, onList_container brings leaf]
          exact h
      | false =>
          have inside := known item brings
          cases step with
          | insertHeader => cases brings
          | push =>
              cases brings
              rw [run, push_leaf v leaf, onList, leaf, if_neg (by simp), split, List.append_assoc]
              refine h.refill isFront split fun x hx => ?_
              rcases List.mem_append.1 hx with hx | hx
              · exact h.known x hx
              · exact List.mem_singleton.1 hx ▸ ⟨inside, leaf⟩
          | insert position =>
              cases brings
              rw [run, insert_leaf v position leaf, onList, leaf, if_neg (by simp), split,
                ← isFront.length, insertIdx_behind]
              refine h.refill isFront split fun x hx => ?_
              rcases mem_insertIdx_min hx with rfl | hx
              · exact ⟨inside, leaf⟩
              · exact h.known x hx

theorem runAll_filledWith (steps : List Filling) (h : FilledWith s b.store v l)
    (known : ∀ step ∈ steps, ∀ item, step.item? = some item → s.InStore item) :
    FilledWith s (runAll v steps b).store v (steps.foldl onList l) := by
  induction steps generalizing b l with
  | nil => exact h
  | cons step rest ih =>
      exact ih (run_filledWith h step (known step (by simp)))
        fun later hlater => known later (List.mem_cons_of_mem step hlater)

/-- Leaving header insertions out makes no difference to the list. -/
theorem foldl_onList_filter (steps : List Filling) (l : List Element) :
    (steps.filter (·.item?.isSome)).foldl onList l = steps.foldl onList l := by
  induction steps generalizing l with
  | nil => rfl
  | cons step rest ih =>
      cases step with
      | insertHeader => exact ih l
      | push item => exact ih _
      | insert position item => exact ih _

/-- A column with a header and one cell, and two more cells. -/
def openColumn : Build where
  store :=
    { cells := ⟨#[{ id := some "a" }, { merge := ⟨2, 1⟩ }, { header := some "c" }]⟩
      vectors := ⟨#[{ orientation := .vertical, children := [.cell ⟨0⟩], header := some "Rent" }]⟩ }

/-- Cells before and after the header, one far behind the end, and a column that is refused. -/
def openSteps : List Filling :=
  [.push (.cell ⟨1⟩), .insertHeader, .insert 0 (.gap { size := 2 }), .insertHeader,
    .push (.vector ⟨0⟩), .insert 7 (.cell ⟨2⟩)]

theorem openColumn_labelled : openColumn.store.Labelled ⟨0⟩ where
  there := by decide
  header := rfl
  holds child below := by
    obtain rfl := List.mem_singleton.1 below
    exact ⟨by decide, rfl⟩
  headFirst inserted := by cases inserted

end Filling

end Spreadsheet
