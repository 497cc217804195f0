import Spreadsheet.Proofs.Resolve.History
import Spreadsheet.Proofs.Template.Parts

/-!
# Evaluating what is no longer pending

Arithmetic, calls and indexing refuse producers.  When all references of an expression are bound, and
nothing is pending under any element that they are bound to, evaluating the expression comes across no
producer: whatever it fails with is another error.
-/

namespace Spreadsheet

open Template (Key Expr)
open Store

/-- Whether an error says that something was used before it was resolved. -/
def SheetError.isPremature : SheetError → Bool
  | .unresolvedReference .. | .arithmeticOnPendingExpression _ | .arithmeticOnPendingFunction _
  | .stillPending _ => true
  | _ => false

/-- Whether a computation gives an answer of some kind, or fails with an error that is not premature. -/
def Timely {α : Type} (P : α → Prop) : Except SheetError α → Prop
  | .ok a => P a
  | .error e => e.isPremature = false

section

variable {α β : Type} {P : α → Prop} {Q : β → Prop}

theorem timely_iff_ends {x : Except SheetError α} :
    Timely P x ↔ Ends P (·.isPremature = false) x := by
  cases x <;> rfl

theorem Timely.imp {P' : α → Prop} {x : Except SheetError α} (h : Timely P x)
    (imp : ∀ a, P a → P' a) : Timely P' x :=
  timely_iff_ends.2 ((timely_iff_ends.1 h).imp imp)

theorem Timely.bind {x : Except SheetError α} {f : α → Except SheetError β} (h : Timely P x)
    (hf : ∀ a, P a → Timely Q (f a)) : Timely Q (x >>= f) :=
  timely_iff_ends.2 ((timely_iff_ends.1 h).bind fun a ha => timely_iff_ends.1 (hf a ha))

theorem Timely.map {x : Except SheetError α} {f : α → β} (h : Timely P x)
    (hf : ∀ a, P a → Q (f a)) : Timely Q (x.map f) :=
  timely_iff_ends.2 ((timely_iff_ends.1 h).map hf)

theorem Timely.mapM {f : α → Except SheetError β} {l : List α} (h : ∀ a ∈ l, Timely Q (f a)) :
    Timely (fun bs => ∀ b ∈ bs, Q b) (l.mapM f) :=
  timely_iff_ends.2 (Ends.mapM fun a ha => timely_iff_ends.1 (h a ha))

end

namespace Store

variable {s : Store} {e child : Element}

/-! ## Elements under which nothing is pending -/

theorem Acyclic.isPending_eq_false_iff (_ : s.Acyclic) :
    s.isPending e = false ↔ ∀ x, Reach s e x → isProducer x = false :=
  Store.isPending_eq_false_iff

theorem Acyclic.isPending_child (h : s.Acyclic) (calm : s.isPending e = false)
    (below : child ∈ s.children e) : s.isPending child = false := by
  rw [h.isPending_eq_false_iff] at calm ⊢
  exact fun x reach => calm x ((reach_of_child below).trans reach)

theorem Acyclic.not_isProducer (h : s.Acyclic) (calm : s.isPending e = false) :
    isProducer e = false :=
  h.isPending_eq_false_iff.1 calm e .root

theorem pendingError_timely (calm : isProducer e = false) :
    (s.pendingError e).isPremature = false := by
  cases e <;> first | rfl | cases calm

theorem mem_children_of_namedChildren (h : child ∈ s.namedChildren e) : child ∈ s.children e := by
  cases e with
  | vector v => exact List.mem_of_mem_drop h
  | _ => exact h

theorem mem_children_of_childNamed? {name : String} (h : s.childNamed? e name = some child) :
    child ∈ s.children e := by
  apply mem_children_of_namedChildren
  simp only [childNamed?, Option.orElse_eq_orElse, Option.orElse_eq_or, Option.or_eq_some_iff] at h
  rcases h with found | ⟨-, found⟩
  · exact List.mem_of_find?_eq_some found
  · exact List.mem_of_find?_eq_some found

/-! ## Formulas -/

section

variable (acyclic : s.Acyclic)

include acyclic

theorem seriesOf_timely {v : VectorId} (calm : s.isPending (.vector v) = false) :
    Timely (fun _ => True) (s.seriesOf v) := by
  apply Timely.bind (P := fun _ => True)
  · refine (Timely.mapM (Q := fun _ => True) fun child here => ?_).imp fun _ _ => trivial
    have below : child ∈ s.children (.vector v) := List.mem_of_mem_drop here
    have leaf := acyclic.not_isProducer (acyclic.isPending_child calm below)
    cases child with
    | cell c => trivial
    | _ => exact pendingError_timely leaf
  · exact fun _ _ => trivial

theorem gridOf_timely (calm : s.isPending e = false) : Timely (fun _ => True) (s.gridOf e) := by
  cases e with
  | cell c => trivial
  | vector v => exact (seriesOf_timely acyclic calm).map fun _ _ => trivial
  | frame f =>
      apply Timely.bind (P := fun _ => True)
      · refine (Timely.mapM (Q := fun _ => True) fun child here => ?_).imp fun _ _ => trivial
        have inner := acyclic.isPending_child calm here
        cases child with
        | vector v => exact seriesOf_timely acyclic inner
        | _ => exact pendingError_timely (acyclic.not_isProducer inner)
      · exact fun _ _ => trivial
  | _ => exact pendingError_timely (acyclic.not_isProducer calm)

end

end Store

/-! ## Values -/

/-- Whether nothing is pending in a value. -/
def Value.Calm (s : Store) : Value → Prop
  | .element e => s.isPending e = false
  | .grid _ => True

section

variable {s : Store} (acyclic : s.Acyclic)

include acyclic

theorem Value.toGrid_timely {v : Value} (calm : v.Calm s) : Timely (fun _ => True) (v.toGrid s) := by
  cases v with
  | element e => exact gridOf_timely acyclic calm
  | grid g => trivial

theorem Value.unary_timely {v : Value} {op : Template.UnaryOp} (calm : v.Calm s) :
    Timely (Value.Calm s) (Value.unary s op v) :=
  (toGrid_timely acyclic calm).bind fun _ _ => trivial

theorem Value.binary_timely {v w : Value} {op : Template.BinaryOp} (left : v.Calm s)
    (right : w.Calm s) : Timely (Value.Calm s) (Value.binary s op v w) :=
  (toGrid_timely acyclic left).bind fun _ _ =>
    (toGrid_timely acyclic right).bind fun _ _ => trivial

/-- A part of an element under which nothing is pending is another such element. -/
theorem Value.index_timely {v : Value} {key : Key} (calm : v.Calm s) :
    Timely (Value.Calm s) (Value.index s v key) := by
  unfold Value.index
  split
  · split
    · exact calm
    · rename_i found
      apply acyclic.isPending_child calm
      exact mem_children_of_namedChildren (List.mem_of_getElem? found)
    · rfl
  · split
    · rename_i found
      exact acyclic.isPending_child calm (mem_children_of_childNamed? found)
    · rfl
  · split
    · trivial
    · rfl
  · split
    · trivial
    · rfl
  · split
    · trivial
    · rfl
  · rfl

theorem Shape.ofValue_timely {v : Value} (calm : v.Calm s) :
    Timely (fun _ => True) (Shape.ofValue s v) := by
  cases v with
  | element e =>
      cases e with
      | cell c => trivial
      | vector v =>
          rw [Shape.ofValue]
          split
          · trivial
          · exact (seriesOf_timely acyclic calm).map fun _ _ => trivial
      | frame f => trivial
      | stack k => trivial
      | _ => exact pendingError_timely (acyclic.not_isProducer calm)
  | grid g => cases g <;> trivial

theorem scalarOperand_timely {v : Value} (calm : v.Calm s) :
    Timely (fun _ => True) (scalarOperand s v) := by
  cases v with
  | element e =>
      have whole : s.isPending e = false := calm
      cases e with
      | cell c => trivial
      | vector v => simp [scalarOperand, Element.isContainer, whole, Timely]
      | frame f => simp [scalarOperand, Element.isContainer, whole, Timely]
      | stack k => simp [scalarOperand, Element.isContainer, whole, Timely]
      | _ => exact pendingError_timely (acyclic.not_isProducer calm)
  | grid g => cases g <;> trivial

theorem callValue_timely {name : String} {args : List Value} {requested : Option Dimension}
    (calm : ∀ v ∈ args, v.Calm s) : Timely (Value.Calm s) (callValue s name args requested) := by
  have named : Timely (fun _ => True) (functionName name) := by
    unfold functionName
    split <;> trivial
  have decided : ∀ name, Timely (fun _ => True) (isVectorCall name args requested) := by
    intro name
    unfold isVectorCall
    split <;> trivial
  apply named.bind
  intro name _
  apply (decided name).bind
  intro vector _
  split
  · exact (Timely.mapM fun v hv => Shape.ofValue_timely acyclic (calm v hv)).bind fun _ _ => trivial
  · exact (Timely.mapM fun v hv => scalarOperand_timely acyclic (calm v hv)).bind fun _ _ => trivial

end

/-! ## Templates -/

/-- Whether the references of an expression are bound to elements under which nothing is pending. -/
def Scope.Covers (x : Scope) (e : Expr) : Prop :=
  ∀ key ∈ e.refs, ∃ found, x.bound.lookup key = some found ∧ x.store.isPending found = false

namespace Scope

variable {x : Scope}

theorem evalAll_eq_mapM (args : List Expr) : x.evalAll args = args.mapM x.eval := by
  induction args with
  | nil => rfl
  | cons arg rest ih => rw [evalAll, ih, List.mapM_cons]

/-- Evaluating an expression whose references are bound comes across nothing that is pending. -/
theorem eval_timely (acyclic : x.store.Acyclic) {e : Expr} (covers : x.Covers e) :
    Timely (Value.Calm x.store) (x.eval e) := by
  induction e using Expr.inductionOn with
  | number n => trivial
  | text t => trivial
  | bool b => trivial
  | ref key =>
      obtain ⟨found, bound, calm⟩ := covers key (by simp [Expr.refs])
      rw [eval, ref, bound]
      exact calm
  | index target key ih =>
      rw [eval]
      exact (ih covers).bind fun v calm => v.index_timely acyclic calm
  | unary op operand ih =>
      rw [eval]
      exact (ih covers).bind fun v calm => Value.unary_timely acyclic calm
  | binary op lhs rhs ihl ihr =>
      rw [eval]
      apply (ihl fun key hkey => covers key (by simp [Expr.refs, hkey])).bind
      intro v left
      apply (ihr fun key hkey => covers key (by simp [Expr.refs, hkey])).bind
      exact fun w right => Value.binary_timely acyclic left right
  | call name args ih =>
      rw [eval, evalAll_eq_mapM]
      refine (Timely.mapM fun arg harg => ih arg harg fun key hkey => covers key ?_).bind
        fun vs calm => callValue_timely acyclic calm
      rw [Expr.refs, Template.refsOfArgs_eq_flatMap, List.mem_flatMap]
      exact ⟨arg, harg, hkey⟩

end Scope

end Spreadsheet
