import Spreadsheet.Proofs.Resolve.Timely
import Spreadsheet.Proofs.Tidy.Making

/-!
# What values point at

Evaluating a template in a tidy store comes across nothing but elements that are there and in use,
provided that its keys are bound to such elements.  So the formulas of the value point at nothing
else, and the series of a table lie across its axis, since the vectors of a frame do.
-/

namespace Spreadsheet

open Template (Key Expr)

/-- Whether a computation gives an answer of some kind, if it gives one. -/
def Gives {α : Type} (P : α → Prop) (x : Except SheetError α) : Prop :=
  Ends P (fun _ => True) x

theorem mem_zipWith {α β γ : Type} {f : α → β → γ} {l : List α} {l' : List β} {c : γ}
    (h : c ∈ List.zipWith f l l') : ∃ a ∈ l, ∃ b ∈ l', f a b = c := by
  rw [← List.map_uncurry_zip_eq_zipWith] at h
  obtain ⟨⟨a, b⟩, pair, rfl⟩ := List.mem_map.1 h
  exact ⟨a, (List.of_mem_zip pair).1, b, (List.of_mem_zip pair).2, rfl⟩

namespace Series

variable {P : Node → Prop} {s t : Series}

theorem Meets.map {f : Formula → Formula} (h : t.Meets P)
    (hf : ∀ a : Formula, a.Meets P → (f a).Meets P) : (t.map f).Meets P := by
  intro a ha
  obtain ⟨b, hb, rfl⟩ := List.mem_map.1 ha
  exact hf b (h b hb)

theorem Meets.zipWith {f : Formula → Formula → Formula} (hs : s.Meets P) (ht : t.Meets P)
    (hf : ∀ a b : Formula, a.Meets P → b.Meets P → (f a b).Meets P) : (s.zipWith f t).Meets P := by
  intro c hc
  obtain ⟨a, ha, b, hb, rfl⟩ := mem_zipWith hc
  exact hf a b (hs a ha) (ht b hb)

end Series

namespace Grid

variable {P : Node → Prop} {g g' : Grid}

theorem Meets.map {f : Formula → Formula} (h : g.Meets P)
    (hf : ∀ a : Formula, a.Meets P → (f a).Meets P) : (g.map f).Meets P := by
  cases g with
  | scalar a => exact hf a h
  | series t => exact Series.Meets.map h hf
  | table vectors o =>
      intro t ht
      obtain ⟨u, hu, rfl⟩ := List.mem_map.1 ht
      exact ⟨(h u hu).1.map hf, (h u hu).2⟩

theorem meets_tableWith {f : Formula → Formula → Formula} {vectors : List Series} {o : Orientation}
    (h : (table vectors o).Meets P) (h' : g.Meets P)
    (hf : ∀ a b : Formula, a.Meets P → b.Meets P → (f a b).Meets P) :
    (table (tableWith f vectors g) o).Meets P := by
  intro t ht
  cases g with
  | scalar b =>
      obtain ⟨u, hu, rfl⟩ := List.mem_map.1 ht
      exact ⟨(h u hu).1.map fun a ha => hf a b ha h', (h u hu).2⟩
  | series s =>
      obtain ⟨u, hu, rfl⟩ := List.mem_map.1 ht
      exact ⟨(h u hu).1.zipWith h' hf, (h u hu).2⟩
  | table others o' =>
      obtain ⟨u, hu, w, hw, rfl⟩ := mem_zipWith ht
      exact ⟨(h u hu).1.zipWith (h' w hw).1 hf, (h u hu).2⟩

theorem Meets.zipWith {f : Formula → Formula → Formula} (h : g.Meets P) (h' : g'.Meets P)
    (hf : ∀ a b : Formula, a.Meets P → b.Meets P → (f a b).Meets P) : (g.zipWith f g').Meets P := by
  cases g with
  | scalar a =>
      cases g' with
      | scalar b => exact hf a b h h'
      | series t => exact Series.Meets.map h' fun b => hf a b h
      | table vectors o => exact meets_tableWith h' h fun b a hb ha => hf a b ha hb
  | series s =>
      cases g' with
      | scalar b => exact Series.Meets.map h fun a ha => hf a b ha h'
      | series t => exact Series.Meets.zipWith h h' hf
      | table vectors o => exact meets_tableWith h' h fun b a hb ha => hf a b ha hb
  | table vectors o => cases g' <;> exact meets_tableWith h h' hf

end Grid

/-- Whether the nodes of a value have a property, as those of its element or of its formulas do. -/
def Value.Meets (P : Node → Prop) : Value → Prop
  | .element e => e.Meets P
  | .grid g => g.Meets P

/-- Whether the nodes that the formulas of an operand hold have a property. -/
def Shape.Meets (P : Node → Prop) : Shape → Prop
  | .scalar f => f.Meets P
  | .series items _ => ∀ f ∈ items, f.Meets P
  | .frame vectors _ whole => (∀ items ∈ vectors, ∀ f ∈ items, f.Meets P) ∧ whole.Meets P

namespace Formula

variable {P : Node → Prop} {items : List Formula}

theorem mem_nodesOfAll {n : Node} : n ∈ nodesOfAll items ↔ ∃ f ∈ items, n ∈ f.nodes := by
  induction items with
  | nil => exact iff_of_false (by nofun) (by nofun)
  | cons f rest ih =>
      calc n ∈ f.nodes ++ nodesOfAll rest
        _ ↔ n ∈ f.nodes ∨ n ∈ nodesOfAll rest := List.mem_append
        _ ↔ n ∈ f.nodes ∨ ∃ g ∈ rest, n ∈ g.nodes := or_congr_right ih
        _ ↔ ∃ g ∈ f :: rest, n ∈ g.nodes := (List.exists_mem_cons_iff (n ∈ nodes ·) f rest).symm

theorem meets_nil {a : Formula} (h : a.nodes = []) : a.Meets P :=
  fun _ hn => absurd (h ▸ hn) List.not_mem_nil

theorem meets_list (h : ∀ f ∈ items, f.Meets P) : (list items).Meets P := by
  intro n hn
  obtain ⟨f, hf, hn⟩ := mem_nodesOfAll.1 hn
  exact h f hf n hn

theorem meets_call {name : String} (h : ∀ f ∈ items, f.Meets P) : (call name items).Meets P :=
  meets_list h

theorem meets_ref {c : CellId} (h : P (.cell c)) : (ref c).Meets P :=
  List.forall_mem_singleton.2 h

theorem meets_span {first last : CellId} (h : P (.cell first)) (h' : P (.cell last)) :
    (span first last).Meets P :=
  List.forall_mem_cons.2 ⟨h, List.forall_mem_singleton.2 h'⟩

theorem meets_range {e : Element} {headers : Bool} (h : e.Meets P) : (range e headers).Meets P :=
  fun n hn => h n (Option.mem_toList.1 hn)

theorem meets_unary {op : Template.UnaryOp} {a : Formula} (h : a.Meets P) :
    (unary op a).Meets P :=
  h

theorem meets_binary {op : Template.BinaryOp} {a b : Formula} (h : a.Meets P) (h' : b.Meets P) :
    (binary op a b).Meets P :=
  List.forall_mem_append.2 ⟨h, h'⟩

end Formula

section

variable {use : Node → Prop} {s : Store} (h : s.Tidy use)

include h

namespace Store

theorem seriesOf_meets {v : VectorId} (used : use (.vector v)) :
    Gives (fun t => t.Meets (s.AtHand use) ∧ t.orientation = (s.vector v).orientation)
      (s.seriesOf v) := by
  apply Ends.bind (P := fun items => ∀ f ∈ items, f.Meets (s.AtHand use))
  · refine Ends.mapM fun child here => ?_
    have below : child ∈ s.children (.vector v) := List.mem_of_mem_drop here
    have inside := h.child (e := .vector v) (by rintro _ ⟨⟩; exact used) below
    cases child with
    | cell c => exact Formula.meets_ref (inside _ rfl)
    | _ => trivial
  · exact fun items meets => ⟨meets, rfl⟩

theorem gridOf_meets {e : Element} (here : e.Meets (s.AtHand use)) :
    Gives (Grid.Meets (s.AtHand use)) (s.gridOf e) := by
  cases e with
  | cell c => exact Formula.meets_ref (here _ rfl)
  | vector v => exact (seriesOf_meets h (here _ rfl).2).map fun _ meets => meets.1
  | frame f =>
      have used := (here _ rfl).2
      apply Ends.bind (P := fun vectors => ∀ t ∈ vectors, Series.Meets (s.AtHand use) t ∧
        t.orientation = (s.frame f).orientation.cross)
      · refine Ends.mapM fun child below => ?_
        cases child with
        | vector v =>
            obtain ⟨inside, across⟩ := h.vectors used v (List.mem_filterMap.2 ⟨_, below, rfl⟩)
            exact (seriesOf_meets h inside.2).imp fun t meets => ⟨meets.1, meets.2.trans across⟩
        | _ => trivial
      · exact fun vectors meets => meets
  | _ => trivial

end Store

namespace Value

theorem toGrid_meets {v : Value} (here : v.Meets (s.AtHand use)) :
    Gives (Grid.Meets (s.AtHand use)) (v.toGrid s) := by
  cases v with
  | element e => exact Store.gridOf_meets h here
  | grid g => exact here

theorem unary_meets {v : Value} {op : Template.UnaryOp} (here : v.Meets (s.AtHand use)) :
    Gives (Meets (s.AtHand use)) (unary s op v) :=
  (toGrid_meets h here).bind fun _ meets => meets.map fun _ => Formula.meets_unary

theorem binary_meets {v w : Value} {op : Template.BinaryOp} (left : v.Meets (s.AtHand use))
    (right : w.Meets (s.AtHand use)) : Gives (Meets (s.AtHand use)) (binary s op v w) :=
  (toGrid_meets h left).bind fun _ meets => (toGrid_meets h right).bind fun _ meets' =>
    meets.zipWith meets' fun _ _ => Formula.meets_binary

theorem index_meets {v : Value} {key : Key} (here : v.Meets (s.AtHand use)) :
    Gives (Meets (s.AtHand use)) (index s v key) := by
  have used : ∀ {e : Element}, e.Meets (s.AtHand use) → e.Meets use :=
    fun here => here.imp fun _ both => both.2
  unfold index
  split
  · split
    · exact here
    · rename_i found
      exact h.child (used here)
        (Store.mem_children_of_namedChildren (List.mem_of_getElem? found))
    · trivial
  · split
    · rename_i found
      exact h.child (used here) (Store.mem_children_of_childNamed? found)
    · trivial
  · split
    · rename_i found
      exact here _ (List.mem_of_getElem? found)
    · trivial
  · split
    · rename_i found
      exact (here _ (List.mem_of_getElem? found)).1
    · trivial
  · split
    · exact here
    · trivial
  · trivial

end Value

theorem Shape.ofValue_meets {v : Value} (here : v.Meets (s.AtHand use)) :
    Gives (Shape.Meets (s.AtHand use)) (Shape.ofValue s v) := by
  cases v with
  | grid g =>
      cases g with
      | scalar f => exact here
      | series t => exact here
      | table vectors o =>
          refine ⟨fun items hitems => ?_, Formula.meets_list fun f hf => ?_⟩
          · obtain ⟨t, ht, rfl⟩ := List.mem_map.1 hitems
            exact (here t ht).1
          · obtain ⟨t, ht, hf⟩ := List.mem_flatMap.1 hf
            exact (here t ht).1 f hf
  | element e =>
      cases e with
      | cell c => exact Formula.meets_ref (here _ rfl)
      | vector v =>
          rw [Shape.ofValue]
          split
          · exact Formula.meets_range here
          · exact (Store.seriesOf_meets h (here _ rfl).2).map fun _ meets => meets.1
      | frame f =>
          refine ⟨fun items hitems a ha => ?_, Formula.meets_range here⟩
          obtain ⟨v, hv, rfl⟩ := List.mem_map.1 hitems
          obtain ⟨c, hc, rfl⟩ := List.mem_map.1 ha
          have inside := (h.vectors (here _ rfl).2 v hv).1
          exact Formula.meets_ref (h.cells inside.2 c hc)
      | stack k => exact Formula.meets_range here
      | _ => trivial

end

namespace Shape

variable {P : Node → Prop}

theorem atPosition_meets {x : Shape} (meets : x.Meets P) (i : Nat) : (x.atPosition i).Meets P := by
  cases x with
  | scalar f => exact meets
  | series items o =>
      cases found : items[i]? with
      | none =>
          rw [atPosition, found]
          intro n hn
          cases hn
      | some f =>
          rw [atPosition, found]
          exact meets f (List.mem_of_getElem? found)
  | frame vectors o whole =>
      have item : ∀ (vector : Option (List Formula)) (f : Formula),
          (∀ items ∈ vector, items ∈ vectors) → vector.bind (·[i]?) = some f → f.Meets P := by
        intro vector f known found
        obtain ⟨items, hitems, found⟩ := Option.bind_eq_some_iff.1 found
        exact meets.1 items (known items hitems) f (List.mem_of_getElem? found)
      rw [atPosition]
      split
      · rename_i begins ends
        have first := item _ _ (fun items => List.mem_of_head?) begins
        have last := item _ _ (fun items => List.mem_of_getLast?) ends
        exact Formula.meets_span (first _ (List.mem_singleton_self _))
          (last _ (List.mem_singleton_self _))
      · refine Formula.meets_list fun f hf => ?_
        obtain ⟨items, hitems, found⟩ := List.mem_filterMap.1 hf
        exact meets.1 items hitems f (List.mem_of_getElem? found)
      · exact meets.2

end Shape

theorem scalarOperand_meets {P : Node → Prop} {s : Store} {v : Value} (here : v.Meets P) :
    Gives (Formula.Meets P) (scalarOperand s v) := by
  cases v with
  | grid g =>
      cases g with
      | scalar f => exact here
      | series t => exact Formula.meets_list here
      | table vectors o =>
          refine Formula.meets_list fun f hf => ?_
          obtain ⟨t, ht, hf⟩ := List.mem_flatMap.1 hf
          exact (here t ht).1 f hf
  | element e =>
      have whole : ∀ e : Element, e.Meets P → Gives (Formula.Meets P)
          (if e.isContainer then
            if s.isPending e then .error (.stillPending (s.kind e)) else .ok (.range e false)
          else .error (s.pendingError e)) := by
        intro e here
        split
        · split
          · trivial
          · exact Formula.meets_range here
        · trivial
      cases e with
      | cell c => exact Formula.meets_ref (here _ rfl)
      | _ => exact whole _ here

section

variable {use : Node → Prop} {s : Store} (h : s.Tidy use)

include h

theorem callValue_meets {name : String} {args : List Value} {requested : Option Dimension}
    (here : ∀ v ∈ args, v.Meets (s.AtHand use)) :
    Gives (Value.Meets (s.AtHand use)) (callValue s name args requested) := by
  have anything : ∀ {α : Type} (x : Except SheetError α), Gives (fun _ => True) x := by
    intro α x
    cases x <;> trivial
  apply (anything _).bind
  intro name _
  apply (anything _).bind
  intro vector _
  split
  · apply (Ends.mapM fun v hv => Shape.ofValue_meets h (here v hv)).bind
    intro shapes meets f hf
    obtain ⟨i, -, rfl⟩ := List.mem_map.1 hf
    refine Formula.meets_call fun a ha => ?_
    obtain ⟨x, hx, rfl⟩ := List.mem_map.1 ha
    exact Shape.atPosition_meets (meets x hx) i
  · apply (Ends.mapM fun v hv => scalarOperand_meets (here v hv)).bind
    exact fun operands meets => Formula.meets_call meets

namespace Scope

/-- Evaluating a template gives a value that points only at what is there and in use. -/
theorem eval_meets {bound : List (Key × Element)} {source : String} {hint : Option Dimension}
    (here : ∀ entry ∈ bound, entry.2.Meets (s.AtHand use)) (e : Expr) :
    Gives (Value.Meets (s.AtHand use)) (eval ⟨s, bound, source, hint⟩ e) := by
  induction e using Expr.inductionOn with
  | number n => exact Formula.meets_nil rfl
  | text t => exact Formula.meets_nil rfl
  | bool b => exact Formula.meets_nil rfl
  | ref key =>
      rw [eval, ref]
      cases found : bound.lookup key with
      | none => trivial
      | some e =>
          obtain ⟨l₁, l₂, rfl, -⟩ := List.lookup_eq_some_iff.1 found
          exact here (key, e) (by simp)
  | index target key ih =>
      rw [eval]
      exact ih.bind fun v meets => Value.index_meets h meets
  | unary op operand ih =>
      rw [eval]
      exact ih.bind fun v meets => Value.unary_meets h meets
  | binary op lhs rhs ihl ihr =>
      rw [eval]
      exact ihl.bind fun v left => ihr.bind fun w right => Value.binary_meets h left right
  | call name args ih =>
      rw [eval, evalAll_eq_mapM]
      exact (Ends.mapM ih).bind fun vs meets => callValue_meets h meets

end Scope

namespace Store

theorem expressionValue_meets {e : ExpressionId} (used : use (.expression e))
    (hint : Option Dimension) :
    Gives (Value.Meets (s.AtHand use)) (s.expressionValue e hint) := by
  refine Scope.eval_meets h (fun entry bound n hn => ?_) _
  exact h.holds (.expression e) used n (List.mem_filterMap.2 ⟨entry, bound, hn⟩)

theorem argumentValue_meets {arg : Argument} (here : ∀ n ∈ arg.nodes, s.AtHand use n) :
    Gives (Value.Meets (s.AtHand use)) (s.argumentValue arg) := by
  cases arg with
  | literal v => exact Formula.meets_nil rfl
  | element e => exact fun n hn => here n (Option.mem_toList.2 hn)
  | expression e => exact expressionValue_meets h (here (.expression e) (by simp [Argument.nodes])).2 _
  | span first last =>
      exact Formula.meets_span (here (.cell first) (by simp [Argument.nodes]))
        (here (.cell last) (by simp [Argument.nodes]))

theorem callNodeValue_meets {c : CallId} (used : use (.call c)) (hint : Option Dimension) :
    Gives (Value.Meets (s.AtHand use)) (s.callNodeValue c hint) := by
  refine (Ends.mapM fun arg harg => argumentValue_meets h fun n hn => ?_).bind
    fun args meets => callValue_meets h meets
  exact h.holds (.call c) used n (List.mem_flatMap.2 ⟨arg, harg, hn⟩)

end Store

end

end Spreadsheet
