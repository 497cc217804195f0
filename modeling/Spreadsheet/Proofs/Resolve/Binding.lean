import Spreadsheet.Resolve.FixedPoint
import Spreadsheet.Proofs.Monad
import Spreadsheet.Proofs.Store.Updates

/-!
# Binding keys

Trying to bind the keys of a producer leaves all trees as they are.  Either nothing changes at all, or
there are fewer keys left to bind.
-/

namespace Spreadsheet

open Store
open Template (Key)

namespace Store

variable {s t u : Store}

/-- Whether a store has the same trees of the same templates, and at most as many keys to bind. -/
structure Binds (s t : Store) : Prop extends Alike s t where
  calls : t.calls = s.calls
  id : ∀ x, t.id? x = s.id? x
  header : ∀ x, t.header? x = s.header? x
  template : ∀ x, (t.expression x).template = (s.expression x).template
  unbound : ∀ x, (t.unboundKeys x).Sublist (s.unboundKeys x)

theorem Binds.refl (s : Store) : Binds s s where
  toAlike := .refl s
  calls := rfl
  id _ := rfl
  header _ := rfl
  template _ := rfl
  unbound _ := .refl _

theorem Binds.trans (first : Binds s t) (second : Binds t u) : Binds s u where
  toAlike := first.toAlike.trans second.toAlike
  calls := second.calls.trans first.calls
  id x := (second.id x).trans (first.id x)
  header x := (second.header x).trans (first.header x)
  template x := (second.template x).trans (first.template x)
  unbound x := (second.unbound x).trans (first.unbound x)

theorem Binds.callExpressions (h : Binds s t) (c : CallId) :
    t.callExpressions c = s.callExpressions c := by
  simp only [Store.callExpressions, call, h.calls]

theorem expression_updateExpression_cases (s : Store) (e x : ExpressionId)
    (f : ExpressionNode → ExpressionNode) : (s.updateExpression e f).expression x = s.expression x ∨
      (s.updateExpression e f).expression x = f (s.expression x) :=
  Table.get_update_cases e.index x.index

theorem binds_updateExpression (s : Store) (e : ExpressionId) (entries : List (Key × Element)) :
    Binds s (s.updateExpression e fun n => { n with bound := n.bound ++ entries }) := by
  have cases := expression_updateExpression_cases s e (f := fun n =>
    { n with bound := n.bound ++ entries })
  have declared : ∀ x, ((s.updateExpression e fun n =>
      { n with bound := n.bound ++ entries }).expression x).declared = (s.expression x).declared := by
    intro x
    rcases cases x with same | more <;> simp only [*]
  refine
    { toAlike := (relabels_updateExpression s e _).toAlike
      calls := rfl
      id := fun x => ?_
      header := fun x => ?_
      template := fun x => ?_
      unbound := fun x => ?_ }
  · cases x <;> first | rfl | exact congrArg Declared.id (declared _)
  · cases x <;> first | rfl | exact congrArg Declared.header (declared _)
  · rcases cases x with same | more <;> simp only [*]
  · rcases cases x with same | more
    · rw [unboundKeys, unboundKeys, same]
    · rw [unboundKeys, unboundKeys, more]
      refine List.monotone_filter_right _ fun key unbound => ?_
      simp only [List.lookup_append, Option.isNone_iff_eq_none, Option.or_eq_none_iff] at unbound
      simp [unbound.1]

/-- A key that is not bound is a key of the template of a node of the store. -/
theorem expression_lt_size {e : ExpressionId} {key : Key} (h : key ∈ s.unboundKeys e) :
    e.index < s.expressions.size := by
  by_contra outside
  rw [unboundKeys, expression, get_eq_default (Nat.le_of_not_lt outside)] at h
  cases h

theorem not_mem_unboundKeys_update {e : ExpressionId} {key : Key} {found : Element}
    (h : key ∈ s.unboundKeys e) : key ∉ (s.updateExpression e fun n =>
      { n with bound := n.bound ++ [(key, found)] }).unboundKeys e := by
  have set : (s.updateExpression e fun n => { n with bound := n.bound ++ [(key, found)] }).expression
      e = { s.expression e with bound := (s.expression e).bound ++ [(key, found)] } :=
    Table.get_update_self s.expressions _ (expression_lt_size h)
  rw [unboundKeys, set]
  simp [List.lookup_append, List.lookup_cons]

end Store

namespace Build

variable {container : Option Element} {e : ExpressionId}

theorem bindKey_cases (container : Option Element) (e : ExpressionId) (b : Build) (key : Key) :
    b.bindKey container e key = b ∨ ∃ found, b.find? container key = some found ∧
      b.store.isPending found = false ∧ b.bindKey container e key =
        { b with
          store := b.store.updateExpression e fun n => { n with bound := n.bound ++ [(key, found)] } } := by
  unfold bindKey
  split
  case h_1 found sought =>
    split
    case isTrue => exact .inl rfl
    case isFalse calm => exact .inr ⟨found, sought, by simpa using calm, rfl⟩
  case h_2 => exact .inl rfl

theorem bindKey_binds (container : Option Element) (e : ExpressionId) (b : Build) (key : Key) :
    Binds b.store (b.bindKey container e key).store := by
  rcases bindKey_cases container e b key with same | ⟨found, -, -, same⟩
  · rw [same]
    exact .refl _
  · rw [same]
    exact binds_updateExpression _ e _

theorem foldl_bindKey_binds (container : Option Element) (e : ExpressionId) (keys : List Key)
    (b : Build) : Binds b.store (keys.foldl (bindKey container e) b).store := by
  induction keys generalizing b with
  | nil => exact .refl _
  | cons key rest ih => exact (bindKey_binds container e b key).trans (ih _)

theorem bindKeys_binds (container : Option Element) (e : ExpressionId) (b : Build) :
    Binds b.store (b.bindKeys container e).store :=
  foldl_bindKey_binds container e _ b

/-- Trying some of the keys that are not bound changes nothing or binds one of them. -/
theorem foldl_bindKey_cases {keys : List Key} {b : Build}
    (unbound : ∀ key ∈ keys, key ∈ b.store.unboundKeys e) :
    keys.foldl (bindKey container e) b = b ∨
      ∃ key ∈ b.store.unboundKeys e,
        key ∉ (keys.foldl (bindKey container e) b).store.unboundKeys e := by
  induction keys with
  | nil => exact .inl rfl
  | cons key rest ih =>
      rw [List.foldl_cons]
      rcases bindKey_cases container e b key with same | ⟨found, -, -, same⟩
      · rw [same]
        exact ih fun other hother => unbound other (List.mem_cons_of_mem _ hother)
      · have first := unbound key (by simp)
        refine .inr ⟨key, first, fun still => ?_⟩
        have before := (foldl_bindKey_binds container e rest _).unbound e |>.subset still
        rw [same] at before
        exact not_mem_unboundKeys_update first before

/-- Trying to bind the keys of an expression changes nothing or leaves fewer of them. -/
theorem bindKeys_cases (container : Option Element) (e : ExpressionId) (b : Build) :
    b.bindKeys container e = b ∨
      ((b.bindKeys container e).store.unboundKeys e).length < (b.store.unboundKeys e).length := by
  have all : ∀ key ∈ b.store.unboundKeys e, key ∈ b.store.unboundKeys e := fun _ h => h
  rcases @foldl_bindKey_cases container e _ _ all with same | ⟨key, before, after⟩
  · exact .inl same
  · right
    have sub := (bindKeys_binds container e b).unbound e
    refine Nat.lt_of_le_of_ne sub.length_le fun same => after ?_
    rw [← sub.eq_of_length same] at before
    exact before

theorem bindArgument_binds (container : Option Element) (b : Build) (arg : Argument) :
    Binds b.store (bindArgument container b arg).store := by
  cases arg with
  | expression e => exact bindKeys_binds container e b
  | _ => exact .refl _

theorem bindArguments_binds (container : Option Element) (args : List Argument) (b : Build) :
    Binds b.store (args.foldl (bindArgument container) b).store := by
  induction args generalizing b with
  | nil => exact .refl _
  | cons arg rest ih => exact (bindArgument_binds container b arg).trans (ih _)

/-- Trying to bind the keys of some operands changes nothing or leaves fewer for one of them. -/
theorem bindArguments_cases (container : Option Element) (args : List Argument) (b : Build) :
    args.foldl (bindArgument container) b = b ∨ ∃ e, .expression e ∈ args ∧
      ((args.foldl (bindArgument container) b).store.unboundKeys e).length <
        (b.store.unboundKeys e).length := by
  induction args generalizing b with
  | nil => exact .inl rfl
  | cons arg rest ih =>
      have others : bindArgument container b arg = b →
          rest.foldl (bindArgument container) (bindArgument container b arg) = b ∨
            ∃ e, .expression e ∈ arg :: rest ∧
              ((rest.foldl (bindArgument container)
                (bindArgument container b arg)).store.unboundKeys e).length <
                (b.store.unboundKeys e).length := by
        intro same
        rw [same]
        refine (ih b).imp id ?_
        rintro ⟨e, he, fewer⟩
        exact ⟨e, List.mem_cons_of_mem _ he, fewer⟩
      rw [List.foldl_cons]
      cases arg with
      | expression e =>
          rcases bindKeys_cases container e b with same | fewer
          · exact others same
          · refine .inr ⟨e, by simp, Nat.lt_of_le_of_lt ?_ fewer⟩
            exact ((bindArguments_binds container rest _).unbound e).length_le
      | _ => exact others rfl

end Build

namespace BuildM

variable {b b' : Build}

theorem runs_attemptExpression {container : Option Element} {e : ExpressionId} {ready : Bool} :
    Runs (attemptExpression container e) b ready b' ↔
      ((b.bindKeys container e).store.unboundKeys e).isEmpty = ready ∧
        b.bindKeys container e = b' := by
  rw [attemptExpression, runs_bind]
  constructor
  · rintro ⟨_, m, bound, h⟩
    obtain rfl := runs_modify.1 bound
    obtain ⟨_, _, got, h⟩ := runs_bind.1 h
    obtain ⟨rfl, rfl⟩ := runs_get.1 got
    exact runs_pure.1 h
  · rintro ⟨rfl, rfl⟩
    exact ⟨(), _, runs_modify.2 rfl, runs_bind.2 ⟨_, _, runs_get.2 ⟨rfl, rfl⟩, runs_pure.2 ⟨rfl, rfl⟩⟩⟩

theorem eq_of_attemptCall {container : Option Element} {c : CallId} {ready : Bool}
    (h : Runs (attemptCall container c) b ready b') :
    b' = (b.store.call c).args.foldl (Build.bindArgument container) b := by
  obtain ⟨_, _, got, h⟩ := runs_bind.1 h
  obtain ⟨rfl, rfl⟩ := runs_get.1 got
  obtain ⟨_, _, bound, h⟩ := runs_bind.1 h
  obtain rfl := runs_modify.1 bound
  obtain ⟨_, _, got, h⟩ := runs_bind.1 h
  obtain ⟨rfl, rfl⟩ := runs_get.1 got
  exact (runs_pure.1 h).2.symm

end BuildM

end Spreadsheet
