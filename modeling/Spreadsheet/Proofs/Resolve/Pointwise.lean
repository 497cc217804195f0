import Spreadsheet.Proofs.Layout.Lines
import Spreadsheet.Proofs.Resolve.Broadcast

/-!
# Calls position by position

A call with a series of results is one call for each position.  The shortest series decides how many
positions there are, or, where there is no series, the shortest vector of a frame; so every series has an
item at each position.  A vector of a frame need not reach as far as that: beyond its end the call takes
the frame as a whole.
-/

namespace Spreadsheet

open Store

/-! ## Values that are settled -/

/-- Whether an element is a gap. -/
def Store.isGap : Element → Bool
  | .gap _ => true
  | _ => false

namespace Value

/-- Whether all that is at or below the element of a value has a property. -/
def Throughout (s : Store) (P : Element → Prop) : Value → Prop
  | .element e => ∀ x, Reach s e x → P x
  | .grid _ => True

instance (s : Store) (P : Element → Prop) [DecidablePred P] (a : Value) :
    Decidable (a.Throughout s P) :=
  match a with
  | .element e => decidable_of_iff (∀ x ∈ s.subtree e, P x) (by simp only [mem_subtree, Throughout])
  | .grid _ => .isTrue trivial

/-- Whether the containers in a value hold what they may hold. -/
def IsShaped (s : Store) (a : Value) : Prop :=
  a.Throughout s fun x => ∀ child ∈ s.children x, s.Takes x child

/-- Whether nothing in a value is pending or a gap. -/
def IsSettled (s : Store) (a : Value) : Prop :=
  a.Throughout s fun x => isProducer x = false ∧ isGap x = false

instance (s : Store) (a : Value) : Decidable (a.IsShaped s) :=
  inferInstanceAs (Decidable (a.Throughout s _))

instance (s : Store) (a : Value) : Decidable (a.IsSettled s) :=
  inferInstanceAs (Decidable (a.Throughout s _))

/-- The length of a value that is a series to a call: a series, or a vector that is not empty. -/
def seriesLength? (s : Store) : Value → Option Nat
  | .grid (.series t) => some t.items.length
  | .element (.vector v) => if s.content v = [] then none else some (s.content v).length
  | _ => none

/-- The lengths of the vectors of a value that is a frame to a call. -/
def vectorLengths (s : Store) : Value → List Nat
  | .grid (.table ts _) => ts.map (·.items.length)
  | .element (.frame f) => (s.frameVectors f).map fun v => (s.content v).length
  | _ => []

/-- The number of positions of a call: the least length of a series, or else the least length of a vector
in a frame, or else one. -/
def positions (s : Store) (args : List Value) : Nat :=
  ((args.filterMap (seriesLength? s)).min? <|> (args.flatMap (vectorLengths s)).min?).getD 1

end Value

/-- What an argument is to the call at a position. -/
inductive OperandAt (s : Store) (i : Nat) : Value → Formula → Prop
  | scalar (a : Formula) : OperandAt s i (.grid (.scalar a)) a
  | series {t : Series} {a : Formula} (item : t.items[i]? = some a) :
      OperandAt s i (.grid (.series t)) a
  | cell (c : CellId) : OperandAt s i (.element (.cell c)) (.ref c)
  | vector {v : VectorId} {c : CellId} (item : (s.content v)[i]? = some (.cell c)) :
      OperandAt s i (.element (.vector v)) (.ref c)
  | emptyVector {v : VectorId} (empty : s.content v = []) :
      OperandAt s i (.element (.vector v)) (.range (.vector v) false)
  | stack (k : StackId) : OperandAt s i (.element (.stack k)) (.range (.stack k) false)
  | line {f : FrameId} {v w : VectorId} {c d : CellId} (first : (s.frameVectors f).head? = some v)
      (last : (s.frameVectors f).getLast? = some w) (start : (s.content v)[i]? = some (.cell c))
      (stop : (s.content w)[i]? = some (.cell d)) : OperandAt s i (.element (.frame f)) (.span c d)
  | frame {f : FrameId} (short : ∀ v w, (s.frameVectors f).head? = some v →
        (s.frameVectors f).getLast? = some w → (s.content v).length ≤ i ∨ (s.content w).length ≤ i) :
      OperandAt s i (.element (.frame f)) (.range (.frame f) false)
  | tableLine {ts : List Series} {o : Orientation} {t u : Series} {c d : CellId}
      (first : ts.head? = some t) (last : ts.getLast? = some u)
      (start : t.items[i]? = some (.ref c)) (stop : u.items[i]? = some (.ref d)) :
      OperandAt s i (.grid (.table ts o)) (.span c d)
  | tableItems {ts : List Series} {o : Orientation} {t u : Series} {a b : Formula}
      (first : ts.head? = some t) (last : ts.getLast? = some u)
      (start : t.items[i]? = some a) (stop : u.items[i]? = some b)
      (mixed : ¬∃ c d, a = .ref c ∧ b = .ref d) :
      OperandAt s i (.grid (.table ts o)) (.list (ts.filterMap (·.items[i]?)))
  | table {ts : List Series} {o : Orientation} (short : ∀ t u, ts.head? = some t →
        ts.getLast? = some u → t.items.length ≤ i ∨ u.items.length ≤ i) :
      OperandAt s i (.grid (.table ts o)) (.list (ts.flatMap (·.items)))

/-! ## Lengths -/

theorem min?_flatMap {α : Type} (l : List α) (g : α → List Nat) :
    (l.flatMap g).min? = (l.filterMap fun a => (g a).min?).min? := by
  induction l with
  | nil => rfl
  | cons a l ih =>
      rw [List.flatMap_cons, List.filterMap_cons]
      cases first : (g a).min? with
      | none => rw [List.min?_eq_none_iff.1 first, List.nil_append, ih]
      | some m =>
          cases rest : (l.flatMap g).min? with
          | none =>
              rw [List.min?_cons, ← ih, rest, List.min?_eq_none_iff.1 rest, List.append_nil, first]
              rfl
          | some n =>
              rw [List.min?_cons, ← ih, rest, min?_append first rest]
              rfl

/-- Below the least of some lengths is below each of them. -/
theorem lt_of_lt_least {lengths : List Nat} {other : Option Nat} {i n : Nat}
    (h : i < (lengths.min? <|> other).getD 1) (mem : n ∈ lengths) : i < n := by
  obtain ⟨m, least⟩ := Option.isSome_iff_exists.1 (List.isSome_min?_of_mem mem)
  rw [least] at h
  exact lt_of_lt_of_le h ((List.min?_eq_some_iff.1 least).2 n mem)

/-! ## Frames -/

/-- What a frame is at a position: the line between two cells if its first and its last vector have cells
there, the items of all vectors if they have others, and all of the frame if one of them ends before. -/
theorem Shape.atPosition_frame {vectors : List (List Formula)} {o : Orientation} {whole : Formula}
    {i : Nat} {P : Formula → Prop}
    (line : ∀ x y c d, vectors.head? = some x → vectors.getLast? = some y → x[i]? = some (.ref c) →
      y[i]? = some (.ref d) → P (.span c d))
    (items : ∀ x y a b, vectors.head? = some x → vectors.getLast? = some y → x[i]? = some a →
      y[i]? = some b → (¬∃ c d, a = .ref c ∧ b = .ref d) → P (.list (vectors.filterMap (·[i]?))))
    (short : (∀ x y, vectors.head? = some x → vectors.getLast? = some y →
      x.length ≤ i ∨ y.length ≤ i) → P whole) : P (atPosition i (.frame vectors o whole)) := by
  rw [atPosition]
  split
  case h_1 c d start stop =>
    obtain ⟨x, first, start⟩ := Option.bind_eq_some_iff.1 start
    obtain ⟨y, last, stop⟩ := Option.bind_eq_some_iff.1 stop
    exact line x y c d first last start stop
  case h_2 a b mixed start stop =>
    obtain ⟨x, first, start⟩ := Option.bind_eq_some_iff.1 start
    obtain ⟨y, last, stop⟩ := Option.bind_eq_some_iff.1 stop
    refine items x y a b first last start stop ?_
    rintro ⟨c, d, rfl, rfl⟩
    exact mixed c d rfl rfl
  case h_3 ends =>
    apply short
    intro x y first last
    by_contra reach
    rw [not_or, not_le, not_le] at reach
    exact ends _ _ (Option.bind_eq_some_iff.2 ⟨x, first, List.getElem?_eq_getElem reach.1⟩)
      (Option.bind_eq_some_iff.2 ⟨y, last, List.getElem?_eq_getElem reach.2⟩)

namespace Store

variable {s : Store} {v : VectorId} {f : FrameId}

/-- A vector that holds nothing pending and no gap holds cells. -/
theorem isPlainVector_of_settled {e : Element} (shaped : (Value.element e).IsShaped s)
    (settled : (Value.element e).IsSettled s) (reach : Reach s e (.vector v)) :
    s.IsPlainVector v := by
  intro child here
  have below : child ∈ s.children (.vector v) := List.mem_of_mem_drop here
  have lone : child.isContainer = false := shaped (.vector v) reach child below
  obtain ⟨ready, solid⟩ := settled child (.child reach below)
  cases child with
  | cell c => rfl
  | gap g => cases solid
  | expression e => cases ready
  | call c => cases ready
  | _ => cases lone

theorem vectorLength_eq_zero : s.vectorLength v = 0 ↔ s.content v = [] := by
  rw [vectorLength, ← List.length_drop, ← List.length_eq_zero_iff]
  rfl

theorem IsPlainVector.length_content (plain : s.IsPlainVector v) :
    (s.content v).length = (s.vectorCells v).length := by
  rw [plain.content_eq, List.length_map]

/-- The references to a vector of cells are those to its children. -/
theorem IsPlainVector.getElem?_refs (plain : s.IsPlainVector v) {i : Nat} {a : Formula}
    (h : ((s.vectorCells v).map Formula.ref)[i]? = some a) :
    ∃ c, (s.content v)[i]? = some (.cell c) ∧ a = .ref c := by
  rw [List.getElem?_map] at h
  obtain ⟨c, here, rfl⟩ := Option.map_eq_some_iff.1 h
  refine ⟨c, ?_, rfl⟩
  rw [plain.content_eq, List.getElem?_map, here]
  rfl

theorem operandAt_frame (plain : ∀ v ∈ s.frameVectors f, s.IsPlainVector v) (i : Nat) :
    OperandAt s i (.element (.frame f)) ((Shape.ofFrame s f).atPosition i) := by
  apply Shape.atPosition_frame
  · intro x y c d first last start stop
    simp only [List.head?_map, List.getLast?_map, Option.map_eq_some_iff] at first last
    obtain ⟨v, head, rfl⟩ := first
    obtain ⟨w, foot, rfl⟩ := last
    obtain ⟨_, start, same⟩ := (plain v (List.mem_of_head? head)).getElem?_refs start
    obtain ⟨_, stop, same'⟩ := (plain w (List.mem_of_getLast? foot)).getElem?_refs stop
    cases same
    cases same'
    exact .line head foot start stop
  · intro x y a b first last start stop mixed
    simp only [List.head?_map, List.getLast?_map, Option.map_eq_some_iff] at first last
    obtain ⟨v, head, rfl⟩ := first
    obtain ⟨w, foot, rfl⟩ := last
    obtain ⟨c, -, rfl⟩ := (plain v (List.mem_of_head? head)).getElem?_refs start
    obtain ⟨d, -, rfl⟩ := (plain w (List.mem_of_getLast? foot)).getElem?_refs stop
    exact absurd ⟨c, d, rfl, rfl⟩ mixed
  · intro short
    refine .frame fun v w head foot => ?_
    rw [(plain v (List.mem_of_head? head)).length_content,
      (plain w (List.mem_of_getLast? foot)).length_content]
    have ends := short _ _ (by rw [List.head?_map, head, Option.map_some])
      (by rw [List.getLast?_map, foot, Option.map_some])
    rwa [List.length_map, List.length_map] at ends

theorem operandAt_table (s : Store) (ts : List Series) (o : Orientation) (i : Nat) :
    OperandAt s i (.grid (.table ts o)) (Shape.atPosition i
      (.frame (ts.map (·.items)) o (.list (ts.flatMap (·.items))))) := by
  apply Shape.atPosition_frame
  · intro x y c d first last start stop
    simp only [List.head?_map, List.getLast?_map, Option.map_eq_some_iff] at first last
    obtain ⟨t, head, rfl⟩ := first
    obtain ⟨u, foot, rfl⟩ := last
    exact .tableLine head foot start stop
  · intro x y a b first last start stop mixed
    simp only [List.head?_map, List.getLast?_map, Option.map_eq_some_iff] at first last
    obtain ⟨t, head, rfl⟩ := first
    obtain ⟨u, foot, rfl⟩ := last
    rw [List.filterMap_map]
    exact .tableItems head foot start stop mixed
  · intro short
    exact .table fun t u head foot => short _ _ (by rw [List.head?_map, head, Option.map_some])
      (by rw [List.getLast?_map, foot, Option.map_some])

end Store

/-! ## Arguments -/

/-- Whether a shape stands for a value: its lengths are those of the value, and it gives what the value is
at each position that its items reach. -/
structure Shape.Fits (s : Store) (a : Value) (x : Shape) : Prop where
  series : x.seriesLength? = a.seriesLength? s
  frame : x.frameLength? = (a.vectorLengths s).min?
  operand : ∀ i, (∀ n, a.seriesLength? s = some n → i < n) → OperandAt s i a (x.atPosition i)

/-- A vector of cells is a scalar range if it is empty, and otherwise the series of its cells. -/
theorem Shape.exists_fits_vector {s : Store} {v : VectorId} (plain : s.IsPlainVector v) :
    ∃ x, Shape.ofValue s (.element (.vector v)) = .ok x ∧ x.Fits s (.element (.vector v)) := by
  by_cases empty : s.content v = []
  · refine ⟨_, if_pos (vectorLength_eq_zero.2 empty), ?_, rfl, fun i _ => .emptyVector empty⟩
    exact (if_pos empty).symm
  · have length : Value.seriesLength? s (.element (.vector v)) = some (s.content v).length :=
      if_neg empty
    refine ⟨_, (if_neg fun h => empty (vectorLength_eq_zero.1 h)).trans
      (congrArg _ plain.seriesOf), ?_, rfl, fun i inside => ?_⟩
    · rw [length, plain.length_content, seriesLength?, List.length_map]
    · have inside := inside _ length
      rw [plain.length_content] at inside
      have item : ((s.vectorCells v).map Formula.ref)[i]? = some (.ref (s.vectorCells v)[i]) := by
        rw [List.getElem?_map, List.getElem?_eq_getElem inside, Option.map_some]
      obtain ⟨c, here, same⟩ := plain.getElem?_refs item
      cases same
      rw [atPosition, item]
      exact .vector here

theorem Shape.exists_fits_frame {s : Store} {f : FrameId}
    (plain : ∀ v ∈ s.frameVectors f, s.IsPlainVector v) :
    ∃ x, Shape.ofValue s (.element (.frame f)) = .ok x ∧ x.Fits s (.element (.frame f)) := by
  refine ⟨_, rfl, rfl, ?_, fun i _ => operandAt_frame plain i⟩
  rw [frameLength?, List.map_map, Value.vectorLengths]
  refine congrArg List.min? (List.map_congr_left fun v hv => ?_)
  rw [(plain v hv).length_content, Function.comp_apply, List.length_map]

theorem Shape.exists_fits {s : Store} {a : Value} (shaped : a.IsShaped s) (settled : a.IsSettled s) :
    ∃ x, Shape.ofValue s a = .ok x ∧ x.Fits s a := by
  cases a with
  | grid g =>
      cases g with
      | scalar f => exact ⟨_, rfl, rfl, rfl, fun i _ => .scalar f⟩
      | series t =>
          refine ⟨_, rfl, rfl, rfl, fun i inside => ?_⟩
          have item := List.getElem?_eq_getElem (inside _ rfl)
          rw [atPosition, item]
          exact .series item
      | table ts o =>
          refine ⟨_, rfl, rfl, ?_, fun i _ => operandAt_table s ts o i⟩
          rw [frameLength?, List.map_map]
          rfl
  | element e =>
      obtain ⟨ready, solid⟩ := settled e .root
      cases e with
      | cell c => exact ⟨_, rfl, rfl, rfl, fun i _ => .cell c⟩
      | vector v => exact exists_fits_vector (isPlainVector_of_settled shaped settled .root)
      | frame f =>
          refine exists_fits_frame fun v hv => isPlainVector_of_settled shaped settled ?_
          exact reach_of_child (mem_frameVectors.1 hv)
      | stack k => exact ⟨_, rfl, rfl, rfl, fun i _ => .stack k⟩
      | gap g => cases solid
      | expression e => cases ready
      | call c => cases ready

theorem exists_mapM_ok {ε α β : Type} {f : α → Except ε β} {R : α → β → Prop} {l : List α}
    (h : ∀ a ∈ l, ∃ b, f a = .ok b ∧ R a b) : ∃ bs, l.mapM f = .ok bs ∧ List.Forall₂ R l bs := by
  induction l with
  | nil => exact ⟨[], rfl, .nil⟩
  | cons a l ih =>
      obtain ⟨b, here, first⟩ := h a (by simp)
      obtain ⟨bs, others, rest⟩ := ih fun c hc => h c (List.mem_cons_of_mem a hc)
      refine ⟨b :: bs, ?_, .cons first rest⟩
      rw [List.mapM_cons, here, others]
      rfl

theorem filterMap_eq_of_forall₂ {α β γ : Type} {R : α → β → Prop} {f : α → Option γ}
    {g : β → Option γ} {l : List α} {l' : List β} (h : List.Forall₂ R l l')
    (same : ∀ a b, R a b → g b = f a) : l'.filterMap g = l.filterMap f := by
  induction h with
  | nil => rfl
  | cons first _ ih => rw [List.filterMap_cons, List.filterMap_cons, same _ _ first, ih]

/-- A call has the positions that its arguments give it. -/
theorem Shape.positions_eq {s : Store} {args : List Value} {shapes : List Shape}
    (fits : List.Forall₂ (Shape.Fits s) args shapes) :
    Shape.positions shapes = Value.positions s args := by
  rw [positions, Value.positions, min?_flatMap, filterMap_eq_of_forall₂ fits fun _ _ h => h.series,
    filterMap_eq_of_forall₂ fits fun _ _ h => h.frame]

/-- A call with a series of results over arguments in which nothing is pending and no gap is has a result
for each position, and each of them is the call of what its arguments are there.  Whatever the shapes of
the arguments of a call are, all series reach as far as its positions. -/
theorem callValue_pointwise {s : Store} {name upper : String} (valid : functionName? name = some upper)
    {args : List Value} (shaped : ∀ a ∈ args, a.IsShaped s) (settled : ∀ a ∈ args, a.IsSettled s)
    {requested : Option Dimension} (several : requested = some .vector ∨
      (requested = none ∨ requested = some .heterogeneous) ∧ ∃ a ∈ args, a.isOneDimensional = true) :
    (∃ t : Series, callValue s name args requested = .ok (.grid (.series t)) ∧
      t.items.length = Value.positions s args ∧
      ∀ i (h : i < t.items.length), ∃ operands, t.items[i] = .call upper operands ∧
        List.Forall₂ (OperandAt s i) args operands) ∧
    ∀ (shapes : List Shape) i, i < Shape.positions shapes →
      ∀ items o, .series items o ∈ shapes → i < items.length := by
  refine ⟨?_, fun shapes i h items o mem =>
    lt_of_lt_least h (List.mem_filterMap.2 ⟨_, mem, rfl⟩)⟩
  obtain ⟨shapes, seen, fits⟩ := exists_mapM_ok fun a ha =>
    Shape.exists_fits (shaped a ha) (settled a ha)
  have positions := Shape.positions_eq fits
  have named : functionName name = .ok upper := by rw [functionName, valid]
  have vector : isVectorCall upper args requested = .ok true := by
    rcases several with rfl | ⟨rfl | rfl, one⟩
    · rfl
    · exact congrArg Except.ok (List.any_eq_true.2 one)
    · exact congrArg Except.ok (List.any_eq_true.2 one)
  refine ⟨⟨(List.range (Shape.positions shapes)).map fun i =>
    .call upper (shapes.map (Shape.atPosition i)), Shape.axis shapes⟩, ?_, ?_, fun i hi => ?_⟩
  · simp only [callValue, named, vector, seen, bind, Except.bind]
    rfl
  · rw [List.length_map, List.length_range, positions]
  · rw [List.length_map, List.length_range, positions] at hi
    refine ⟨shapes.map (Shape.atPosition i), by rw [List.getElem_map, List.getElem_range], ?_⟩
    have inside : ∀ a ∈ args, ∀ n, a.seriesLength? s = some n → i < n := fun a ha n length =>
      lt_of_lt_least hi (List.mem_filterMap.2 ⟨a, ha, length⟩)
    rw [List.forall₂_map_right_iff]
    exact ((List.forall₂_and_left args shapes).2 ⟨inside, fits⟩).imp fun a x h => h.2.operand i h.1

/-! ## Columns of different lengths -/

/-- A column of three cells, a column of two, an empty one, and a frame of a column of two and a column of
one. -/
def Store.unevenColumns : Store where
  cells := ⟨#[{ value := .text "1" }, { value := .text "2" }, { value := .text "3" },
    { value := .text "4" }, { value := .text "5" }, { value := .text "6" }, { value := .text "7" },
    { value := .text "8" }]⟩
  vectors := ⟨#[{ orientation := .vertical, children := [.cell ⟨0⟩, .cell ⟨1⟩, .cell ⟨2⟩] },
    { orientation := .vertical, children := [.cell ⟨3⟩, .cell ⟨4⟩] },
    { orientation := .vertical },
    { orientation := .vertical, children := [.cell ⟨5⟩, .cell ⟨6⟩] },
    { orientation := .vertical, children := [.cell ⟨7⟩] }]⟩
  frames := ⟨#[{ orientation := .horizontal, children := [.vector ⟨3⟩, .vector ⟨4⟩] }]⟩

/-- The columns, the frame and a literal. -/
def unevenArguments : List Value :=
  [.element (.vector ⟨0⟩), .element (.vector ⟨1⟩), .element (.vector ⟨2⟩), .element (.frame ⟨0⟩),
    .grid (.scalar (.literal (.bool true)))]

theorem callValue_unevenColumns :
    (∃ t : Series, callValue .unevenColumns "max" unevenArguments none = .ok (.grid (.series t)) ∧
      t.items.length = Value.positions .unevenColumns unevenArguments ∧
      ∀ i (h : i < t.items.length), ∃ operands, t.items[i] = .call "MAX" operands ∧
        List.Forall₂ (OperandAt .unevenColumns i) unevenArguments operands) ∧
    ∀ (shapes : List Shape) i, i < Shape.positions shapes →
      ∀ items o, .series items o ∈ shapes → i < items.length :=
  callValue_pointwise (by decide) (by decide) (by decide)
    (.inr ⟨.inl rfl, .element (.vector ⟨0⟩), by simp [unevenArguments], rfl⟩)

example : callValue .unevenColumns "max" unevenArguments none = .ok (.grid (.series
    ⟨[.call "MAX" [.ref ⟨0⟩, .ref ⟨3⟩, .range (.vector ⟨2⟩) false, .span ⟨5⟩ ⟨7⟩, .literal (.bool true)],
      .call "MAX" [.ref ⟨1⟩, .ref ⟨4⟩, .range (.vector ⟨2⟩) false, .range (.frame ⟨0⟩) false,
        .literal (.bool true)]], .vertical⟩)) := rfl

end Spreadsheet
