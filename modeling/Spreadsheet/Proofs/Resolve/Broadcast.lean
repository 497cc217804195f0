import Spreadsheet.Resolve.Evaluate
import Spreadsheet.Proofs.Template.Parts

/-!
# Arithmetic position by position

Operands of different shapes are combined two at a time, on the way up the tree of operators.  What
comes out depends only on the operands of the whole expression: their least lengths, the axis of the
first of the largest shape, and at each position the expression itself, every key replaced by the cell
that its operand has there.
-/

namespace Spreadsheet

namespace Template.Expr

/-- Whether an expression is put together from literals and references by operators alone. -/
def isArithmetic : Expr → Bool
  | .number _ | .text _ | .bool _ | .ref _ => true
  | .unary _ operand => operand.isArithmetic
  | .binary _ lhs rhs => lhs.isArithmetic && rhs.isArithmetic
  | .index _ _ | .call _ _ => false

/-- Whether an operator stands at the root. -/
def isOperation : Expr → Bool
  | .unary _ _ | .binary _ _ _ => true
  | _ => false

/-- The formula that an arithmetic expression is, every key replaced by a reference to its cell. -/
def formula? (cell? : Key → Option CellId) : Expr → Option Formula
  | .number n => some (.literal (.number n))
  | .text t => some (.literal (.text t))
  | .bool b => some (.literal (.bool b))
  | .ref key => (cell? key).map .ref
  | .unary op operand => (operand.formula? cell?).map (.unary op)
  | .binary op lhs rhs => do return .binary op (← lhs.formula? cell?) (← rhs.formula? cell?)
  | .index _ _ | .call _ _ => none

end Template.Expr

open Template (Key Expr)

@[simp] theorem Series.orientation_map (f : Formula → Formula) (t : Series) :
    (t.map f).orientation = t.orientation := rfl

@[simp] theorem Series.orientation_zipWith (f : Formula → Formula → Formula) (t u : Series) :
    (t.zipWith f u).orientation = t.orientation := rfl

namespace Store

variable {s : Store}

/-- The frame that an element is. -/
def asFrame? : Element → Option FrameId
  | .frame f => some f
  | _ => none

/-- The vector of an operand that position `j` runs along: a vector itself, the `j`th of a frame. -/
def lineAt? (s : Store) (j : Nat) : Element → Option VectorId
  | .vector v => some v
  | .frame f => (s.frameVectors f)[j]?
  | _ => none

/-- The cell that an operand has at a position: a cell itself, the `i`th of a vector, and the `i`th of
the `j`th vector of a frame. -/
def cellAt? (s : Store) (j i : Nat) : Element → Option CellId
  | .cell c => some c
  | e => (s.lineAt? j e).bind fun v => (s.vectorCells v)[i]?

/-- Whether nothing but cells is in a vector. -/
def IsPlainVector (s : Store) (v : VectorId) : Prop :=
  ∀ e ∈ s.content v, (asCell? e).isSome = true

/-- Whether an element is a cell, a vector of cells or a frame of such vectors. -/
def IsPlain (s : Store) : Element → Prop
  | .cell _ => True
  | .vector v => s.IsPlainVector v
  | .frame f => ∀ e ∈ (s.frame f).children, ∃ v ∈ asVector? e, s.IsPlainVector v
  | _ => False

instance (s : Store) (v : VectorId) : Decidable (s.IsPlainVector v) :=
  inferInstanceAs (Decidable (∀ e ∈ s.content v, (asCell? e).isSome = true))

instance (s : Store) : DecidablePred s.IsPlain
  | .cell _ => .isTrue trivial
  | .vector v => inferInstanceAs (Decidable (s.IsPlainVector v))
  | .frame f => inferInstanceAs
      (Decidable (∀ e ∈ (s.frame f).children, ∃ v ∈ asVector? e, s.IsPlainVector v))
  | .stack _ | .gap _ | .expression _ | .call _ => .isFalse id

/-- Whether a series is as long as the shortest of some vectors and holds a formula for each
position. -/
structure Along (s : Store) (lines : List VectorId) (formula? : Nat → Option Formula)
    (t : Series) : Prop where
  length : (lines.map fun v => (s.vectorCells v).length).min? = some t.items.length
  items : ∀ i (h : i < t.items.length), formula? i = some t.items[i]

/-- Whether a grid has the shape of the largest of some operands, cut down to the shortest of them, and
holds a formula for each position. -/
inductive Spreads (s : Store) (operands : List Element)
    (formula? : Nat → Nat → Option Formula) : Grid → Prop
  | scalar {a : Formula} (vectors : operands.filterMap asVector? = [])
      (frames : operands.filterMap asFrame? = []) (item : ∀ j i, formula? j i = some a) :
      Spreads s operands formula? (.scalar a)
  | series {t : Series} (frames : operands.filterMap asFrame? = [])
      (axis : (operands.filterMap asVector?).head?.map (fun v => (s.vector v).orientation) =
        some t.orientation)
      (along : ∀ j, s.Along (operands.filterMap asVector?) (formula? j) t) :
      Spreads s operands formula? (.series t)
  | table {ts : List Series} {o : Orientation}
      (axis : (operands.filterMap asFrame?).head?.map (fun f => (s.frame f).orientation) = some o)
      (count : ((operands.filterMap asFrame?).map fun f => (s.frameVectors f).length).min? =
        some ts.length)
      (axes : ∀ j (h : j < ts.length),
        ((operands.filterMap asFrame?).head?.bind fun f => (s.frameVectors f)[j]?).map
          (fun v => (s.vector v).orientation) = some ts[j].orientation)
      (along : ∀ j (h : j < ts.length),
        s.Along (operands.filterMap (s.lineAt? j)) (formula? j) ts[j]) :
      Spreads s operands formula? (.table ts o)

/-! ## Least lengths -/

theorem min?_append {l l' : List Nat} {a b : Nat} (h : l.min? = some a) (h' : l'.min? = some b) :
    (l ++ l').min? = some (min a b) := by
  rw [List.min?_eq_some_iff] at h h' ⊢
  constructor
  · rcases Nat.le_total a b with le | le
    · rw [Nat.min_eq_left le]
      exact List.mem_append_left _ h.1
    · rw [Nat.min_eq_right le]
      exact List.mem_append_right _ h'.1
  · intro c hc
    rcases List.mem_append.1 hc with hc | hc
    · exact (Nat.min_le_left a b).trans (h.2 c hc)
    · exact (Nat.min_le_right a b).trans (h'.2 c hc)

theorem min?_append_comm (l l' : List Nat) : (l ++ l').min? = (l' ++ l).min? := by
  ext a
  simp only [List.min?_eq_some_iff, List.mem_append, or_comm]

/-! ## Along one line -/

section

variable {lines lines' : List VectorId} {p q r : Nat → Option Formula} {t u : Series}

theorem Along.map {f : Formula → Formula} (h : s.Along lines p t)
    (item : ∀ i x, p i = some x → r i = some (f x)) : s.Along lines r (t.map f) where
  length := by simpa [Series.map] using h.length
  items := by
    intro i hi
    have hi : i < t.items.length := by simpa [Series.map] using hi
    simpa [Series.map] using item i _ (h.items i hi)

theorem Along.zipWith {f : Formula → Formula → Formula} (h : s.Along lines p t)
    (h' : s.Along lines' q u) (item : ∀ i x y, p i = some x → q i = some y → r i = some (f x y)) :
    s.Along (lines ++ lines') r (t.zipWith f u) where
  length := by
    rw [List.map_append, Series.zipWith, List.length_zipWith]
    exact min?_append h.length h'.length
  items := by
    intro i hi
    simp only [Series.zipWith, List.length_zipWith, lt_inf_iff] at hi
    simpa [Series.zipWith] using item i _ _ (h.items i hi.1) (h'.items i hi.2)

theorem Along.swap (h : s.Along (lines ++ lines') p t) : s.Along (lines' ++ lines) p t := by
  refine ⟨?_, h.items⟩
  rw [List.map_append, min?_append_comm, ← List.map_append]
  exact h.length

end

/-! ## Two grids -/

section

variable {xs ys : List Element} {p q r : Nat → Nat → Option Formula} {g h : Grid}
  {ts : List Series} {o : Orientation}

theorem lines_of_noFrames (none : xs.filterMap asFrame? = []) (j : Nat) :
    xs.filterMap (s.lineAt? j) = xs.filterMap asVector? := by
  apply List.filterMap_congr
  intro x hx
  cases x with
  | frame f => exact absurd (List.filterMap_eq_nil_iff.1 none _ hx) (by simp [asFrame?])
  | _ => rfl

theorem Spreads.map {f : Formula → Formula} (hg : s.Spreads xs p g)
    (item : ∀ j i x, p j i = some x → r j i = some (f x)) : s.Spreads xs r (g.map f) := by
  cases hg with
  | scalar vectors frames single =>
      exact .scalar vectors frames fun j i => item j i _ (single j i)
  | series frames axis along => exact .series frames axis fun j => (along j).map (item j)
  | table axis count axes along =>
      refine .table axis (by simpa using count) (fun j hj => ?_) fun j hj => ?_
      · rw [List.getElem_map]
        exact axes j (by simpa using hj)
      · rw [List.getElem_map]
        exact (along j (by simpa using hj)).map (item j)

theorem head?_append_of_map {α β : Type} {l : List α} {f : α → β} {b : β}
    (h : l.head?.map f = some b) (l' : List α) : (l ++ l').head? = l.head? := by
  cases l with
  | nil => cases h
  | cons a l => rfl

/-- The shape of a table stays when another operand goes along it. -/
theorem Spreads.tableWith {f : Formula → Formula → Formula} (hg : s.Spreads xs p (.table ts o))
    (hh : s.Spreads ys q h)
    (item : ∀ j i x y, p j i = some x → q j i = some y → r j i = some (f x y)) :
    s.Spreads (xs ++ ys) r (.table (Grid.tableWith f ts h) o) := by
  cases hg with
  | table axis count axes along =>
  have first := head?_append_of_map axis
  cases hh with
  | scalar vectors frames single =>
      refine .table ?_ ?_ (fun j hj => ?_) fun j hj => ?_
      · simpa [frames] using axis
      · simpa [frames, Grid.tableWith] using count
      · simpa [frames, Grid.tableWith] using axes j (by simpa [Grid.tableWith] using hj)
      · have here := along j (by simpa [Grid.tableWith] using hj)
        simpa [Grid.tableWith, lines_of_noFrames frames, vectors] using
          here.map fun i x hx => item j i x _ hx (single j i)
  | series frames axis' along' =>
      refine .table ?_ ?_ (fun j hj => ?_) fun j hj => ?_
      · simpa [frames] using axis
      · simpa [frames, Grid.tableWith] using count
      · simpa [frames, Grid.tableWith] using axes j (by simpa [Grid.tableWith] using hj)
      · have here := along j (by simpa [Grid.tableWith] using hj)
        simpa [Grid.tableWith, lines_of_noFrames frames] using here.zipWith (along' j) (item j)
  | @table ts' o' axis' count' axes' along' =>
      have lengths : (Grid.tableWith f ts (.table ts' o')).length = min ts.length ts'.length :=
        List.length_zipWith
      refine .table ?_ ?_ (fun j hj => ?_) fun j hj => ?_
      · rw [List.filterMap_append, first]
        exact axis
      · rw [List.filterMap_append, List.map_append, lengths]
        exact min?_append count count'
      · rw [lengths, lt_inf_iff] at hj
        rw [List.filterMap_append, first]
        simpa [Grid.tableWith] using axes j hj.1
      · rw [lengths, lt_inf_iff] at hj
        rw [List.filterMap_append]
        simpa [Grid.tableWith] using (along j hj.1).zipWith (along' j hj.2) (item j)

/-- An operand without a frame may as well stand in front of a table. -/
theorem Spreads.swap (hg : s.Spreads (xs ++ ys) p (.table ts o))
    (frames : ys.filterMap asFrame? = []) : s.Spreads (ys ++ xs) p (.table ts o) := by
  have same : (ys ++ xs).filterMap asFrame? = (xs ++ ys).filterMap asFrame? := by
    simp [frames]
  cases hg with
  | table axis count axes along =>
      rw [← same] at axis count axes
      refine .table axis count axes fun j hj => ?_
      have here := along j hj
      rw [List.filterMap_append] at here ⊢
      exact here.swap

theorem Spreads.zipWith {f : Formula → Formula → Formula} (hg : s.Spreads xs p g)
    (hh : s.Spreads ys q h)
    (item : ∀ j i x y, p j i = some x → q j i = some y → r j i = some (f x y)) :
    s.Spreads (xs ++ ys) r (g.zipWith f h) := by
  have flipped := fun j i x y hx hy => item j i y x hy hx
  cases hg with
  | @scalar a vectors frames single =>
      cases hh with
      | scalar vectors' frames' single' =>
          exact .scalar (by simp [vectors, vectors']) (by simp [frames, frames'])
            fun j i => item j i _ _ (single j i) (single' j i)
      | series frames' axis' along' =>
          refine .series (by simp [frames, frames']) ?_ fun j => ?_
          · simpa [vectors] using axis'
          · simpa [vectors] using (along' j).map fun i x hx => item j i _ x (single j i) hx
      | table axis' count' axes' along' =>
          exact (Spreads.tableWith (.table axis' count' axes' along')
            (.scalar vectors frames single) flipped).swap frames
  | @series t frames axis along =>
      cases hh with
      | scalar vectors' frames' single' =>
          refine .series (by simp [frames, frames']) ?_ fun j => ?_
          · simpa [vectors'] using axis
          · simpa [vectors'] using (along j).map fun i x hx => item j i x _ hx (single' j i)
      | series frames' axis' along' =>
          refine .series (by simp [frames, frames']) ?_ fun j => ?_
          · rw [List.filterMap_append, head?_append_of_map axis]
            exact axis
          · rw [List.filterMap_append]
            exact (along j).zipWith (along' j) (item j)
      | table axis' count' axes' along' =>
          exact (Spreads.tableWith (.table axis' count' axes' along')
            (.series frames axis along) flipped).swap frames
  | table axis count axes along =>
      have joined := Spreads.tableWith (.table axis count axes along) hh item
      cases h <;> exact joined

end

/-! ## One operand -/

theorem mapM_eq_ok {ε α β : Type} {f : α → Except ε β} {g : α → β} {l : List α}
    (h : ∀ a ∈ l, f a = .ok (g a)) : l.mapM f = .ok (l.map g) := by
  induction l with
  | nil => rfl
  | cons a l ih =>
      rw [List.mapM_cons, h a (by simp), ih fun b hb => h b (List.mem_cons_of_mem a hb)]
      rfl

theorem eq_cell_of_asCell? {e : Element} {c : CellId} (h : asCell? e = some c) : e = .cell c := by
  cases e <;> simp_all [asCell?]

theorem eq_vector_of_asVector? {e : Element} {v : VectorId} (h : asVector? e = some v) :
    e = .vector v := by
  cases e <;> simp_all [asVector?]

/-- Elements of one kind are told by their numbers. -/
theorem eq_map_filterMap {β : Type} {as? : Element → Option β} {mk : β → Element}
    (eq_mk : ∀ {e b}, as? e = some b → e = mk b) {l : List Element}
    (h : ∀ e ∈ l, (as? e).isSome = true) : l = (l.filterMap as?).map mk := by
  induction l with
  | nil => rfl
  | cons e l ih =>
      obtain ⟨b, hb⟩ := Option.isSome_iff_exists.1 (h e (by simp))
      rw [List.filterMap_cons_some hb, List.map_cons, ← eq_mk hb,
        ← ih fun e he => h e (List.mem_cons_of_mem _ he)]

theorem IsPlainVector.content_eq {v : VectorId} (h : s.IsPlainVector v) :
    s.content v = (s.vectorCells v).map .cell :=
  eq_map_filterMap eq_cell_of_asCell? h

theorem IsPlainVector.seriesOf {v : VectorId} (h : s.IsPlainVector v) :
    s.seriesOf v = .ok ⟨(s.vectorCells v).map .ref, (s.vector v).orientation⟩ := by
  rw [Store.seriesOf, h.content_eq, List.mapM_map, mapM_eq_ok (g := Formula.ref)]
  · rfl
  · exact fun _ _ => rfl

theorem gridOf_frame {f : FrameId} (h : s.IsPlain (.frame f)) :
    s.gridOf (.frame f) = .ok (.table ((s.frameVectors f).map fun v =>
      ⟨(s.vectorCells v).map .ref, (s.vector v).orientation⟩) (s.frame f).orientation) := by
  have vectors : (s.frame f).children = (s.frameVectors f).map .vector := by
    refine eq_map_filterMap eq_vector_of_asVector? fun e he => ?_
    obtain ⟨v, hv, -⟩ := h e he
    exact Option.isSome_iff_exists.2 ⟨v, hv⟩
  have plain : ∀ v ∈ s.frameVectors f, s.IsPlainVector v := by
    intro v hv
    obtain ⟨w, same, hw⟩ := h (.vector v) (vectors ▸ List.mem_map_of_mem hv)
    cases same
    exact hw
  rw [Store.gridOf, vectors, List.mapM_map, mapM_eq_ok]
  · rfl
  · exact fun v hv => (plain v hv).seriesOf

/-- Arithmetic sees the cells of an operand at their positions. -/
theorem IsPlain.gridOf {e : Element} (h : s.IsPlain e) : ∃ g, s.gridOf e = .ok g ∧
    s.Spreads [e] (fun j i => (s.cellAt? j i e).map .ref) g := by
  cases e with
  | cell c => exact ⟨_, rfl, .scalar rfl rfl fun _ _ => rfl⟩
  | vector v =>
      refine ⟨_, by rw [Store.gridOf, IsPlainVector.seriesOf h]; rfl, .series rfl rfl fun j =>
        ⟨by simp [asVector?], fun i hi => ?_⟩⟩
      have hi : i < (s.vectorCells v).length := by simpa using hi
      simp [cellAt?, lineAt?, hi]
  | frame f =>
      refine ⟨_, gridOf_frame h, .table rfl (by simp [asFrame?]) (fun j hj => ?_) fun j hj => ?_⟩
      · have hj : j < (s.frameVectors f).length := by simpa using hj
        simp [asFrame?, hj]
      · have hj : j < (s.frameVectors f).length := by simpa using hj
        refine ⟨by simp [lineAt?, hj], fun i hi => ?_⟩
        have hi : i < (s.vectorCells (s.frameVectors f)[j]).length := by simpa using hi
        simp [cellAt?, lineAt?, hj, hi]
  | stack k => exact h.elim
  | gap g => exact h.elim
  | expression x => exact h.elim
  | call c => exact h.elim

/-! ## A whole expression -/

/-- The operands of an expression, from left to right. -/
def operands (s : Store) (e : ExpressionId) : List Element :=
  (s.expression e).template.ast.refs.filterMap fun key => (s.expression e).bound.lookup key

/-- An expression over the cells that its operands have at a position. -/
def formulaAt? (s : Store) (e : ExpressionId) (j i : Nat) : Option Formula :=
  (s.expression e).template.ast.formula? fun key =>
    ((s.expression e).bound.lookup key).bind (s.cellAt? j i)

end Store

namespace Scope

variable {x : Scope}

theorem spreads_literal {a : CellValue} {p : Nat → Nat → Option Formula}
    (item : ∀ j i, p j i = some (.literal a)) :
    x.store.Spreads [] p (.scalar (.literal a)) :=
  .scalar rfl rfl item

/-- Every part of an arithmetic expression spreads over the operands in it. -/
theorem eval_spreads {e : Expr} (arithmetic : e.isArithmetic = true)
    (plain : ∀ key ∈ e.refs, ∃ el ∈ x.bound.lookup key, x.store.IsPlain el) :
    ∃ v g, x.eval e = .ok v ∧ v.toGrid x.store = .ok g ∧ (e.isOperation = true → v = .grid g) ∧
      x.store.Spreads (e.refs.filterMap fun key => x.bound.lookup key)
        (fun j i => e.formula? fun key => (x.bound.lookup key).bind (x.store.cellAt? j i)) g := by
  induction e using Expr.inductionOn with
  | number n => exact ⟨_, _, rfl, rfl, nofun, spreads_literal fun _ _ => rfl⟩
  | text t => exact ⟨_, _, rfl, rfl, nofun, spreads_literal fun _ _ => rfl⟩
  | bool b => exact ⟨_, _, rfl, rfl, nofun, spreads_literal fun _ _ => rfl⟩
  | ref key =>
      obtain ⟨el, found, here⟩ := plain key (by simp [Expr.refs])
      have found : x.bound.lookup key = some el := found
      obtain ⟨g, grid, spreads⟩ := here.gridOf
      refine ⟨.element el, g, by simp [eval, Scope.ref, found], grid, nofun, ?_⟩
      simpa [Expr.refs, Expr.formula?, found] using spreads
  | index target key => cases arithmetic
  | unary op operand ih =>
      obtain ⟨v, g, value, grid, -, spreads⟩ := ih arithmetic plain
      have result : x.eval (.unary op operand) = .ok (.grid (g.map (.unary op))) := by
        rw [eval, value]
        show Value.unary x.store op v = _
        rw [Value.unary, grid]
        rfl
      refine ⟨_, _, result, rfl, fun _ => rfl, spreads.map fun j i f hf => ?_⟩
      simp [Expr.formula?, hf]
  | binary op lhs rhs ihl ihr =>
      obtain ⟨left, right⟩ : lhs.isArithmetic = true ∧ rhs.isArithmetic = true := by
        simpa [Expr.isArithmetic] using arithmetic
      obtain ⟨v, g, value, grid, -, spreads⟩ :=
        ihl left fun key hk => plain key (List.mem_append_left _ hk)
      obtain ⟨v', g', value', grid', -, spreads'⟩ :=
        ihr right fun key hk => plain key (List.mem_append_right _ hk)
      have result : x.eval (.binary op lhs rhs) = .ok (.grid (g.zipWith (.binary op) g')) := by
        rw [eval, value, value']
        show Value.binary x.store op v v' = _
        rw [Value.binary, grid, grid']
        rfl
      refine ⟨_, _, result, rfl, fun _ => rfl, ?_⟩
      rw [Expr.refs, List.filterMap_append]
      refine spreads.zipWith spreads' fun j i f f' hf hf' => ?_
      simp [Expr.formula?, hf, hf']
  | call name args => cases arithmetic

end Scope

namespace Store

/-- An arithmetic expression whose keys are bound to cells, vectors of cells and frames of such vectors
has formulas for its value, in the shape of its largest operand cut down to the shortest one, and each
of them is the expression itself over the cells at its position. -/
theorem expressionValue_spreads (s : Store) (e : ExpressionId) (hint : Option Dimension)
    (arithmetic : (s.expression e).template.ast.isArithmetic = true)
    (operation : (s.expression e).template.ast.isOperation = true)
    (plain : ∀ key ∈ (s.expression e).template.ast.refs,
      ∃ el ∈ (s.expression e).bound.lookup key, s.IsPlain el) :
    ∃ g, s.expressionValue e hint = .ok (.grid g) ∧
      s.Spreads (s.operands e) (s.formulaAt? e) g := by
  obtain ⟨v, g, value, -, same, spreads⟩ :=
    Scope.eval_spreads (x := ⟨s, (s.expression e).bound, (s.expression e).template.source, hint⟩)
      arithmetic plain
  obtain rfl := same operation
  exact ⟨g, value, spreads⟩

/-! ## A column less the columns of a frame -/

/-- A column of three cells, a frame with a column of two and a column of one, and their difference. -/
def columnLessFrame : Store where
  cells := ⟨#[{ value := .text "1" }, { value := .text "2" }, { value := .text "3" },
    { value := .text "4" }, { value := .text "5" }, { value := .text "6" }]⟩
  vectors := ⟨#[{ orientation := .vertical, children := [.cell ⟨0⟩, .cell ⟨1⟩, .cell ⟨2⟩] },
    { orientation := .vertical, children := [.cell ⟨3⟩, .cell ⟨4⟩] },
    { orientation := .vertical, children := [.cell ⟨5⟩] }]⟩
  frames := ⟨#[{ orientation := .horizontal, children := [.vector ⟨1⟩, .vector ⟨2⟩] }]⟩
  expressions := ⟨#[{
    template := {
      source := "[a] - [b]"
      expanded := "refs[\"a\"] - refs[\"b\"]"
      keys := [.name "a", .name "b"]
      isRef := false
      ast := .binary .sub (.ref (.name "a")) (.ref (.name "b")) }
    bound := [(.name "a", .vector ⟨0⟩), (.name "b", .frame ⟨0⟩)] }]⟩

theorem expressionValue_columnLessFrame :
    ∃ g, columnLessFrame.expressionValue ⟨0⟩ none = .ok (.grid g) ∧
      columnLessFrame.Spreads (columnLessFrame.operands ⟨0⟩) (columnLessFrame.formulaAt? ⟨0⟩) g :=
  expressionValue_spreads columnLessFrame ⟨0⟩ none rfl rfl (by decide)

example : columnLessFrame.expressionValue ⟨0⟩ none = .ok (.grid (.table
    [⟨[.binary .sub (.ref ⟨0⟩) (.ref ⟨3⟩), .binary .sub (.ref ⟨1⟩) (.ref ⟨4⟩)], .vertical⟩,
      ⟨[.binary .sub (.ref ⟨0⟩) (.ref ⟨5⟩)], .vertical⟩] .horizontal)) := rfl

end Store

end Spreadsheet
