import Spreadsheet.Proofs.Store.Growth

/-!
# Updates of a store

How each change of a node and each new node fits into the growth of a layout.
-/

namespace Spreadsheet

namespace Table

variable {α : Type} [Inhabited α] {t : Table α} {f : α → α}

theorem get_update_cases (i j : Nat) :
    (t.update i f).get j = t.get j ∨ (t.update i f).get j = f (t.get j) := by
  by_cases same : i = j
  · subst same
    by_cases inside : i < t.size
    · exact .inr (get_update_self t f inside)
    · have outside := Nat.le_of_not_lt inside
      rw [Store.get_eq_default outside, Store.get_eq_default (by simpa using outside)]
      exact .inl rfl
  · exact .inl (get_update_of_ne t f same)

theorem get_push (a : α) (i : Nat) : (t.push a).get i = if i = t.size then a else t.get i := by
  split
  case isTrue h => rw [h, get_push_size]
  case isFalse h =>
    by_cases inside : i < t.size
    · exact get_push_of_lt t a inside
    · rw [Store.get_eq_default (t := t) (by omega),
        Store.get_eq_default (by rw [size_push]; omega)]

end Table

namespace Store

variable {s t u : Store} {roots : List Element}

/-! ## The same trees in the same places -/

/-- Whether a store differs from another in nothing but content and headers. -/
structure Relabels (s t : Store) : Prop extends Alike s t where
  location : ∀ e, t.location? e = s.location? e
  extents : ∀ e below, s.extentOver below e ≤ t.extentOver below e

theorem Relabels.refl (s : Store) : Relabels s s where
  toAlike := .refl s
  location _ := rfl
  extents _ _ := le_refl _

theorem Relabels.trans (first : Relabels s t) (second : Relabels t u) : Relabels s u where
  toAlike := first.toAlike.trans second.toAlike
  location e := (second.location e).trans (first.location e)
  extents e below := (first.extents e below).trans (second.extents e below)

theorem Relabels.grows (h : Relabels s t) (wf : s.WellFormed) : Grows roots s t :=
  .of_alike wf h.toAlike (fun e => .inl (h.location e)) h.extents

theorem cell_updateCell_cases (s : Store) (c d : CellId) (f : CellNode → CellNode) :
    (s.updateCell c f).cell d = s.cell d ∨ (s.updateCell c f).cell d = f (s.cell d) :=
  Table.get_update_cases c.index d.index

theorem vector_updateVector_cases (s : Store) (v w : VectorId) (f : VectorNode → VectorNode) :
    (s.updateVector v f).vector w = s.vector w ∨ (s.updateVector v f).vector w = f (s.vector w) :=
  Table.get_update_cases v.index w.index

theorem frame_updateFrame_cases (s : Store) (g h : FrameId) (f : FrameNode → FrameNode) :
    (s.updateFrame g f).frame h = s.frame h ∨ (s.updateFrame g f).frame h = f (s.frame h) :=
  Table.get_update_cases g.index h.index

theorem stack_updateStack_cases (s : Store) (k l : StackId) (f : StackNode → StackNode) :
    (s.updateStack k f).stack l = s.stack l ∨ (s.updateStack k f).stack l = f (s.stack l) :=
  Table.get_update_cases k.index l.index

/-- What is in a store depends only on how many nodes of each kind there are. -/
theorem inStore_congr (cells : t.cells.size = s.cells.size) (vectors : t.vectors.size = s.vectors.size)
    (frames : t.frames.size = s.frames.size) (groups : t.groups.size = s.groups.size) (e : Element) :
    t.InStore e ↔ s.InStore e := by
  cases e with
  | cell c => exact iff_of_eq (congrArg (c.index < ·) cells)
  | vector v => exact iff_of_eq (congrArg (v.index < ·) vectors)
  | frame f => exact iff_of_eq (congrArg (f.index < ·) frames)
  | stack k => exact iff_of_eq (congrArg (k.index < ·) groups)
  | _ => exact .rfl

theorem inStore_updateCell (s : Store) (c : CellId) (f : CellNode → CellNode) (e : Element) :
    (s.updateCell c f).InStore e ↔ s.InStore e :=
  inStore_congr (s := s) (t := s.updateCell c f) (Table.size_update _ _ _) rfl rfl rfl e

theorem inStore_updateVector (s : Store) (v : VectorId) (f : VectorNode → VectorNode)
    (e : Element) : (s.updateVector v f).InStore e ↔ s.InStore e :=
  inStore_congr (s := s) (t := s.updateVector v f) rfl (Table.size_update _ _ _) rfl rfl e

theorem inStore_updateFrame (s : Store) (g : FrameId) (f : FrameNode → FrameNode) (e : Element) :
    (s.updateFrame g f).InStore e ↔ s.InStore e :=
  inStore_congr (s := s) (t := s.updateFrame g f) rfl rfl (Table.size_update _ _ _) rfl e

theorem inStore_updateStack (s : Store) (k : StackId) (f : StackNode → StackNode) (e : Element) :
    (s.updateStack k f).InStore e ↔ s.InStore e :=
  inStore_congr (s := s) (t := s.updateStack k f) rfl rfl rfl (Table.size_update _ _ _) e

theorem alike_updateVector (s : Store) (v : VectorId) {f : VectorNode → VectorNode}
    (same : ∀ n, (f n).children = n.children) : Alike s (s.updateVector v f) where
  inStore := inStore_updateVector s v f
  children e := by
    cases e with
    | vector w => rcases vector_updateVector_cases s v w f with h | h <;> simp [children, h, same]
    | _ => rfl
  merge _ := rfl

theorem alike_updateFrame (s : Store) (g : FrameId) {f : FrameNode → FrameNode}
    (same : ∀ n, (f n).children = n.children) : Alike s (s.updateFrame g f) where
  inStore := inStore_updateFrame s g f
  children e := by
    cases e with
    | frame h => rcases frame_updateFrame_cases s g h f with h | h <;> simp [children, h, same]
    | _ => rfl
  merge _ := rfl

theorem alike_updateStack (s : Store) (k : StackId) {f : StackNode → StackNode}
    (same : ∀ n, (f n).children = n.children) : Alike s (s.updateStack k f) where
  inStore := inStore_updateStack s k f
  children e := by
    cases e with
    | stack l => rcases stack_updateStack_cases s k l f with h | h <;> simp [children, h, same]
    | _ => rfl
  merge _ := rfl

theorem alike_updateAttributes (s : Store) (e : Element) (f : Attributes → Attributes) :
    Alike s (s.updateAttributes e f) := by
  cases e with
  | vector v => exact alike_updateVector s v fun _ => rfl
  | frame g => exact alike_updateFrame s g fun _ => rfl
  | stack k => exact alike_updateStack s k fun _ => rfl
  | _ => exact .refl s

theorem alike_updateCell (s : Store) (c : CellId) {f : CellNode → CellNode}
    (merge : ∀ n, (f n).merge = n.merge) : Alike s (s.updateCell c f) where
  inStore := inStore_updateCell s c f
  children e := children_updateCell s c f e
  merge d := by rcases cell_updateCell_cases s c d f with h | h <;> simp [h, merge]

theorem relabels_updateCell (s : Store) (c : CellId) {f : CellNode → CellNode}
    (merge : ∀ n, (f n).merge = n.merge) (location : ∀ n, (f n).location = n.location) :
    Relabels s (s.updateCell c f) where
  toAlike := alike_updateCell s c merge
  location e := by
    cases e with
    | cell d => rcases cell_updateCell_cases s c d f with h | h <;> simp [location?, h, location]
    | _ => rfl
  extents e below := by
    cases e with
    | cell d =>
        rcases cell_updateCell_cases s c d f with h | h <;> simp [extentOver, h, merge]
    | _ => exact le_refl _

theorem relabels_updateVector (s : Store) (v : VectorId) {f : VectorNode → VectorNode}
    (same : ∀ n, (f n).children = n.children) (axis : ∀ n, (f n).orientation = n.orientation)
    (location : ∀ n, (f n).attributes.location = n.attributes.location)
    (header : ∀ n, n.header.isSome → (f n).header.isSome)
    (inserted : ∀ n, (f n).headerInserted = n.headerInserted) :
    Relabels s (s.updateVector v f) where
  toAlike := alike_updateVector s v same
  location e := by
    cases e with
    | vector w =>
        rcases vector_updateVector_cases s v w f with h | h <;>
          simp [location?, attributes?, h, location]
    | _ => rfl
  extents e below := by
    cases e with
    | vector w =>
        rcases vector_updateVector_cases s v w f with h | h
        · simp [extentOver, pendingHeader, h]
        · simp only [extentOver, pendingHeader, h, axis, inserted]
          refine Orientation.extent_le _ ?_ (le_refl _)
          refine Nat.add_le_add_left ?_ _
          have pending := header (s.vector w)
          cases hs : (s.vector w).header.isSome with
          | false => simp
          | true => simp [pending hs]
    | _ => exact le_refl _

theorem relabels_updateFrame (s : Store) (g : FrameId) {f : FrameNode → FrameNode}
    (same : ∀ n, (f n).children = n.children) (axis : ∀ n, (f n).orientation = n.orientation)
    (location : ∀ n, (f n).attributes.location = n.attributes.location) :
    Relabels s (s.updateFrame g f) where
  toAlike := alike_updateFrame s g same
  location e := by
    cases e with
    | frame h =>
        rcases frame_updateFrame_cases s g h f with h | h <;>
          simp [location?, attributes?, h, location]
    | _ => rfl
  extents e below := by
    cases e with
    | frame h => rcases frame_updateFrame_cases s g h f with h | h <;> simp [extentOver, h, axis]
    | _ => exact le_refl _

theorem relabels_updateStack (s : Store) (k : StackId) {f : StackNode → StackNode}
    (same : ∀ n, (f n).children = n.children) (axis : ∀ n, (f n).orientation = n.orientation)
    (location : ∀ n, (f n).attributes.location = n.attributes.location) :
    Relabels s (s.updateStack k f) where
  toAlike := alike_updateStack s k same
  location e := by
    cases e with
    | stack l =>
        rcases stack_updateStack_cases s k l f with h | h <;>
          simp [location?, attributes?, h, location]
    | _ => rfl
  extents e below := by
    cases e with
    | stack l => rcases stack_updateStack_cases s k l f with h | h <;> simp [extentOver, h, axis]
    | _ => exact le_refl _

theorem relabels_updateAttributes (s : Store) (e : Element) {f : Attributes → Attributes}
    (location : ∀ a, (f a).location = a.location) : Relabels s (s.updateAttributes e f) := by
  cases e with
  | vector v =>
      exact relabels_updateVector s v (fun _ => rfl) (fun _ => rfl) (fun n => location n.attributes)
        (fun _ h => h) (fun _ => rfl)
  | frame g =>
      exact relabels_updateFrame s g (fun _ => rfl) (fun _ => rfl) fun n => location n.attributes
  | stack k =>
      exact relabels_updateStack s k (fun _ => rfl) (fun _ => rfl) fun n => location n.attributes
  | _ => exact .refl s

theorem relabels_updateExpression (s : Store) (x : ExpressionId)
    (f : ExpressionNode → ExpressionNode) : Relabels s (s.updateExpression x f) where
  inStore e := by cases e <;> rfl
  children e := by cases e <;> rfl
  merge _ := rfl
  location e := by cases e <;> rfl
  extents e below := by cases e <;> exact le_refl _

theorem relabels_updateCall (s : Store) (c : CallId) (f : CallNode → CallNode) :
    Relabels s (s.updateCall c f) where
  inStore e := by cases e <;> rfl
  children e := by cases e <;> rfl
  merge _ := rfl
  location e := by cases e <;> rfl
  extents e below := by cases e <;> exact le_refl _

/-! ## New nodes -/

/-- Whether a store has more nodes, and the old ones are as they were. -/
structure Adds (s t : Store) : Prop extends Extends s t where
  location : ∀ e, s.InStore e → t.location? e = s.location? e
  extents : ∀ e, s.InStore e → ∀ below, t.extentOver below e = s.extentOver below e

theorem Adds.grows (h : Adds s t) (wf : s.WellFormed) : Grows roots s t :=
  .of_extends wf h.toExtends h.location h.extents

theorem cell_addCell_eq (s : Store) (n : CellNode) (c : CellId) :
    (s.addCell n).2.cell c = if c.index = s.cells.size then n else s.cell c :=
  Table.get_push n c.index

theorem vector_addVector_eq (s : Store) (n : VectorNode) (v : VectorId) :
    (s.addVector n).2.vector v = if v.index = s.vectors.size then n else s.vector v :=
  Table.get_push n v.index

theorem frame_addFrame_eq (s : Store) (n : FrameNode) (f : FrameId) :
    (s.addFrame n).2.frame f = if f.index = s.frames.size then n else s.frame f :=
  Table.get_push n f.index

theorem stack_addStack_eq (s : Store) (n : StackNode) (k : StackId) :
    (s.addStack n).2.stack k = if k.index = s.groups.size then n else s.stack k :=
  Table.get_push n k.index

theorem adds_addCell (s : Store) {n : CellNode} (merge : 1 ≤ n.merge.rows ∧ 1 ≤ n.merge.cols) :
    Adds s (s.addCell n).2 where
  held e he := by
    cases e with
    | cell c =>
        have h : c.index < s.cells.size := he
        simp only [InStore, addCell, Table.size_push]
        omega
    | _ => exact he
  children e _ := children_addCell s n e
  fresh e child new below := by
    rw [children_addCell] at below
    exact absurd (inStore_of_child below) new
  merge c hc := by rw [cell_addCell_eq, if_neg (Nat.ne_of_lt hc)]
  merges c new := by
    rw [cell_addCell_eq]
    split
    case isTrue h => exact merge
    case isFalse h =>
      rw [cell, get_eq_default (Nat.le_of_not_lt new)]
      exact ⟨Nat.le_refl 1, Nat.le_refl 1⟩
  location e he := by
    cases e with
    | cell c => rw [location?, location?, cell_addCell_eq, if_neg (Nat.ne_of_lt he)]
    | _ => rfl
  extents e he below := by
    cases e with
    | cell c => rw [extentOver, extentOver, cell_addCell_eq, if_neg (Nat.ne_of_lt he)]
    | _ => rfl

theorem adds_addVector (s : Store) {n : VectorNode} (closed : ∀ e ∈ n.children, s.InStore e) :
    Adds s (s.addVector n).2 where
  held e he := by
    cases e with
    | vector v =>
        have h : v.index < s.vectors.size := he
        simp only [InStore, addVector, Table.size_push]
        omega
    | _ => exact he
  children e he := by
    cases e with
    | vector v => rw [children, children, vector_addVector_eq, if_neg (Nat.ne_of_lt he)]
    | _ => rfl
  fresh e child new below := by
    cases e with
    | vector v =>
        rw [children, vector_addVector_eq] at below
        split at below
        case isTrue h => exact closed child below
        case isFalse h => exact absurd (inStore_of_child (s := s) (e := .vector v) below) new
    | _ => exact absurd (inStore_of_child (s := s) below) new
  merge _ _ := rfl
  merges c new := by
    show 1 ≤ (s.cell c).merge.rows ∧ 1 ≤ (s.cell c).merge.cols
    rw [cell, get_eq_default (Nat.le_of_not_lt new)]
    exact ⟨Nat.le_refl 1, Nat.le_refl 1⟩
  location e he := by
    cases e with
    | vector v =>
        simp only [location?, attributes?, vector_addVector_eq, if_neg (Nat.ne_of_lt he)]
    | _ => rfl
  extents e he below := by
    cases e with
    | vector v =>
        simp only [extentOver, pendingHeader, vector_addVector_eq, if_neg (Nat.ne_of_lt he)]
    | _ => rfl

theorem adds_addFrame (s : Store) {n : FrameNode} (closed : ∀ e ∈ n.children, s.InStore e) :
    Adds s (s.addFrame n).2 where
  held e he := by
    cases e with
    | frame f =>
        have h : f.index < s.frames.size := he
        simp only [InStore, addFrame, Table.size_push]
        omega
    | _ => exact he
  children e he := by
    cases e with
    | frame f => rw [children, children, frame_addFrame_eq, if_neg (Nat.ne_of_lt he)]
    | _ => rfl
  fresh e child new below := by
    cases e with
    | frame f =>
        rw [children, frame_addFrame_eq] at below
        split at below
        case isTrue h => exact closed child below
        case isFalse h => exact absurd (inStore_of_child (s := s) (e := .frame f) below) new
    | _ => exact absurd (inStore_of_child (s := s) below) new
  merge _ _ := rfl
  merges c new := by
    show 1 ≤ (s.cell c).merge.rows ∧ 1 ≤ (s.cell c).merge.cols
    rw [cell, get_eq_default (Nat.le_of_not_lt new)]
    exact ⟨Nat.le_refl 1, Nat.le_refl 1⟩
  location e he := by
    cases e with
    | frame f => simp only [location?, attributes?, frame_addFrame_eq, if_neg (Nat.ne_of_lt he)]
    | _ => rfl
  extents e he below := by
    cases e with
    | frame f => simp only [extentOver, frame_addFrame_eq, if_neg (Nat.ne_of_lt he)]
    | _ => rfl

theorem adds_addStack (s : Store) {n : StackNode} (closed : ∀ e ∈ n.children, s.InStore e) :
    Adds s (s.addStack n).2 where
  held e he := by
    cases e with
    | stack k =>
        have h : k.index < s.groups.size := he
        simp only [InStore, addStack, Table.size_push]
        omega
    | _ => exact he
  children e he := by
    cases e with
    | stack k => rw [children, children, stack_addStack_eq, if_neg (Nat.ne_of_lt he)]
    | _ => rfl
  fresh e child new below := by
    cases e with
    | stack k =>
        rw [children, stack_addStack_eq] at below
        split at below
        case isTrue h => exact closed child below
        case isFalse h => exact absurd (inStore_of_child (s := s) (e := .stack k) below) new
    | _ => exact absurd (inStore_of_child (s := s) below) new
  merge _ _ := rfl
  merges c new := by
    show 1 ≤ (s.cell c).merge.rows ∧ 1 ≤ (s.cell c).merge.cols
    rw [cell, get_eq_default (Nat.le_of_not_lt new)]
    exact ⟨Nat.le_refl 1, Nat.le_refl 1⟩
  location e he := by
    cases e with
    | stack k => simp only [location?, attributes?, stack_addStack_eq, if_neg (Nat.ne_of_lt he)]
    | _ => rfl
  extents e he below := by
    cases e with
    | stack k => simp only [extentOver, stack_addStack_eq, if_neg (Nat.ne_of_lt he)]
    | _ => rfl

theorem inStore_addCell (s : Store) (n : CellNode) :
    (s.addCell n).2.InStore (.cell (s.addCell n).1) := by
  simp [InStore, addCell]

theorem inStore_addVector (s : Store) (n : VectorNode) :
    (s.addVector n).2.InStore (.vector (s.addVector n).1) := by
  simp [InStore, addVector]

theorem inStore_addFrame (s : Store) (n : FrameNode) :
    (s.addFrame n).2.InStore (.frame (s.addFrame n).1) := by
  simp [InStore, addFrame]

theorem inStore_addStack (s : Store) (n : StackNode) :
    (s.addStack n).2.InStore (.stack (s.addStack n).1) := by
  simp [InStore, addStack]

theorem not_inStore_addVector (s : Store) (n : VectorNode) :
    ¬s.InStore (.vector (s.addVector n).1) := by
  simp [InStore, addVector]

theorem not_inStore_addFrame (s : Store) (n : FrameNode) :
    ¬s.InStore (.frame (s.addFrame n).1) := by
  simp [InStore, addFrame]

theorem not_inStore_addStack (s : Store) (n : StackNode) :
    ¬s.InStore (.stack (s.addStack n).1) := by
  simp [InStore, addStack]

theorem children_addVector_self (s : Store) (n : VectorNode) :
    (s.addVector n).2.children (.vector (s.addVector n).1) = n.children := by
  rw [children, vector_addVector_eq]
  exact congrArg VectorNode.children (if_pos rfl)

theorem children_addFrame_self (s : Store) (n : FrameNode) :
    (s.addFrame n).2.children (.frame (s.addFrame n).1) = n.children := by
  rw [children, frame_addFrame_eq]
  exact congrArg FrameNode.children (if_pos rfl)

theorem children_addStack_self (s : Store) (n : StackNode) :
    (s.addStack n).2.children (.stack (s.addStack n).1) = n.children := by
  rw [children, stack_addStack_eq]
  exact congrArg StackNode.children (if_pos rfl)

/-! ## New children -/

theorem vector_updateVector_of_ne {v w : VectorId} (s : Store) (f : VectorNode → VectorNode)
    (h : v ≠ w) : (s.updateVector v f).vector w = s.vector w :=
  Table.get_update_of_ne _ _ fun same => h (by cases v; cases w; simp_all)

theorem frame_updateFrame_of_ne {g h : FrameId} (s : Store) (f : FrameNode → FrameNode)
    (ne : g ≠ h) : (s.updateFrame g f).frame h = s.frame h :=
  Table.get_update_of_ne _ _ fun same => ne (by cases g; cases h; simp_all)

theorem stack_updateStack_of_ne {k l : StackId} (s : Store) (f : StackNode → StackNode)
    (h : k ≠ l) : (s.updateStack k f).stack l = s.stack l :=
  Table.get_update_of_ne _ _ fun same => h (by cases k; cases l; simp_all)

theorem regroups_updateVector (s : Store) (v : VectorId) (f : VectorNode → VectorNode) :
    Regroups (.vector v) s (s.updateVector v f) where
  inStore := inStore_updateVector s v f
  others x ne := by
    cases x with
    | vector w =>
        rw [children, children, vector_updateVector_of_ne s f fun same => ne (by rw [same])]
    | _ => rfl
  merge _ := rfl

theorem regroups_setChildren (s : Store) (e : Element) (l : List Element) :
    Regroups e s (s.setChildren e l) := by
  cases e with
  | vector v => exact regroups_updateVector s v _
  | frame g =>
      refine ⟨inStore_updateFrame s g _, fun x ne => ?_, fun _ => rfl⟩
      cases x with
      | frame h =>
          have apart : g ≠ h := fun same => ne (by rw [same])
          rw [children, children, setChildren, frame_updateFrame_of_ne s _ apart]
      | _ => rfl
  | stack k =>
      refine ⟨inStore_updateStack s k _, fun x ne => ?_, fun _ => rfl⟩
      cases x with
      | stack l =>
          have apart : k ≠ l := fun same => ne (by rw [same])
          rw [children, children, setChildren, stack_updateStack_of_ne s _ apart]
      | _ => rfl
  | _ => exact ⟨fun _ => Iff.rfl, fun _ _ => rfl, fun _ => rfl⟩

theorem children_setChildren_self {e : Element} (he : s.InStore e) (hc : e.isContainer = true)
    (l : List Element) : (s.setChildren e l).children e = l := by
  cases e with
  | vector v =>
      have := Table.get_update_self s.vectors (fun n => { n with children := l }) he
      simp only [children, vector, setChildren, updateVector, this]
  | frame f =>
      have := Table.get_update_self s.frames (fun n => { n with children := l }) he
      simp only [children, frame, setChildren, updateFrame, this]
  | stack k =>
      have := Table.get_update_self s.groups (fun n => { n with children := l }) he
      simp only [children, stack, setChildren, updateStack, this]
  | _ => cases hc

theorem location?_setChildren (s : Store) (e x : Element) (l : List Element) :
    (s.setChildren e l).location? x = s.location? x := by
  cases e with
  | vector v =>
      cases x with
      | vector w =>
          rcases vector_updateVector_cases s v w (fun n => { n with children := l }) with h | h <;>
            simp [location?, attributes?, setChildren, h]
      | _ => rfl
  | frame f =>
      cases x with
      | frame g =>
          rcases frame_updateFrame_cases s f g (fun n => { n with children := l }) with h | h <;>
            simp [location?, attributes?, setChildren, h]
      | _ => rfl
  | stack k =>
      cases x with
      | stack m =>
          rcases stack_updateStack_cases s k m (fun n => { n with children := l }) with h | h <;>
            simp [location?, attributes?, setChildren, h]
      | _ => rfl
  | _ => rfl

theorem extentOver_setChildren (s : Store) (e x : Element) (l : List Element)
    (below : List Extent) : (s.setChildren e l).extentOver below x = s.extentOver below x := by
  cases e with
  | vector v =>
      cases x with
      | vector w =>
          rcases vector_updateVector_cases s v w (fun n => { n with children := l }) with h | h <;>
            simp [extentOver, pendingHeader, setChildren, h]
      | _ => rfl
  | frame f =>
      cases x with
      | frame g =>
          rcases frame_updateFrame_cases s f g (fun n => { n with children := l }) with h | h <;>
            simp [extentOver, setChildren, h]
      | _ => rfl
  | stack k =>
      cases x with
      | stack m =>
          rcases stack_updateStack_cases s k m (fun n => { n with children := l }) with h | h <;>
            simp [extentOver, setChildren, h]
      | _ => rfl
  | _ => rfl

/-- Give a container new children. -/
theorem Grows.setChildren (g : Grows roots s u) (wf : s.WellFormed) {e : Element}
    (he : s.InStore e) (hc : e.isContainer = true) (below : ∃ r ∈ roots, Reach s r e)
    {l : List Element} (allowed : ∀ z ∈ l, Allowed s u e z)
    (covers : ∀ child ∈ u.children e, child.isSolid = true → ∃ z ∈ l, Reach u z child)
    (wide : ∀ v : Store, v.Acyclic → (∀ a b, b.isSolid = true → Reach u a b → Reach v a b) →
      ∀ o, Covers o ((u.children e).map v.extent) (l.map v.extent)) :
    Grows roots s (u.setChildren e l) := by
  have self := children_setChildren_self (g.held e he) hc l
  refine g.regroup wf he hc (regroups_setChildren u e l) below (by rwa [self]) (by rwa [self])
    (fun x => location?_setChildren u e x l) ?_ ?_
  · intro x _ extents
    rw [extentOver_setChildren]
  · intro acyclic later
    rw [self, extentOver_setChildren]
    exact extentOver_le fun o => wide _ acyclic later o

end Store

end Spreadsheet
