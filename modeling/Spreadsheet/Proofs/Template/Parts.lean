import Mathlib
import Spreadsheet.Template.Expr

/-!
# The parts of an expression

An expression with everything in it, so that a property of all numbers or all calls of an
expression can be stated and taken apart along its structure.
-/

namespace Spreadsheet.Template

namespace Expr

mutual

/-- An expression and everything in it, each before what is in it. -/
def parts : Expr → List Expr
  | .number x => [.number x]
  | .text s => [.text s]
  | .bool b => [.bool b]
  | .ref key => [.ref key]
  | .index target key => .index target key :: target.parts
  | .unary op operand => .unary op operand :: operand.parts
  | .binary op lhs rhs => .binary op lhs rhs :: (lhs.parts ++ rhs.parts)
  | .call name args => .call name args :: partsOfArgs args

/-- The parts of several expressions. -/
def partsOfArgs : List Expr → List Expr
  | [] => []
  | arg :: rest => arg.parts ++ partsOfArgs rest

end

attribute [local simp] parts partsOfArgs

theorem partsOfArgs_eq_flatMap (args : List Expr) : partsOfArgs args = args.flatMap parts := by
  induction args with
  | nil => rfl
  | cons arg rest ih => simp [ih]

/-- Induction on an expression, with the hypothesis for every argument of a call. -/
@[elab_as_elim]
theorem inductionOn {P : Expr → Prop} (e : Expr) (number : ∀ x, P (.number x))
    (text : ∀ s, P (.text s)) (bool : ∀ b, P (.bool b)) (ref : ∀ key, P (.ref key))
    (index : ∀ target key, P target → P (.index target key))
    (unary : ∀ op operand, P operand → P (.unary op operand))
    (binary : ∀ op lhs rhs, P lhs → P rhs → P (.binary op lhs rhs))
    (call : ∀ name args, (∀ arg ∈ args, P arg) → P (.call name args)) : P e := by
  apply Expr.rec (motive_1 := P) (motive_2 := fun args => ∀ arg ∈ args, P arg)
  · exact number
  · exact text
  · exact bool
  · exact ref
  · exact index
  · exact unary
  · exact binary
  · exact call
  · intro arg h
    cases h
  · intro head tail hhead htail arg h
    rcases List.mem_cons.1 h with rfl | h
    · exact hhead
    · exact htail arg h

/-- A property of an expression and of everything in it. -/
def Every (p : Expr → Prop) (e : Expr) : Prop :=
  ∀ part ∈ e.parts, p part

instance (p : Expr → Prop) [DecidablePred p] (e : Expr) : Decidable (Every p e) :=
  inferInstanceAs (Decidable (∀ part ∈ e.parts, p part))

variable {p : Expr → Prop}

@[simp] theorem every_number (x : Float) : Every p (.number x) ↔ p (.number x) := by
  simp [Every]

@[simp] theorem every_text (s : String) : Every p (.text s) ↔ p (.text s) := by
  simp [Every]

@[simp] theorem every_bool (b : Bool) : Every p (.bool b) ↔ p (.bool b) := by
  simp [Every]

@[simp] theorem every_ref (key : Key) : Every p (.ref key) ↔ p (.ref key) := by
  simp [Every]

@[simp] theorem every_index (target : Expr) (key : Key) :
    Every p (.index target key) ↔ p (.index target key) ∧ Every p target := by
  simp [Every]

@[simp] theorem every_unary (op : UnaryOp) (operand : Expr) :
    Every p (.unary op operand) ↔ p (.unary op operand) ∧ Every p operand := by
  simp [Every]

@[simp] theorem every_binary (op : BinaryOp) (lhs rhs : Expr) :
    Every p (.binary op lhs rhs) ↔ p (.binary op lhs rhs) ∧ Every p lhs ∧ Every p rhs := by
  simp [Every, or_imp, forall_and]

@[simp] theorem every_call (name : String) (args : List Expr) :
    Every p (.call name args) ↔ p (.call name args) ∧ ∀ arg ∈ args, Every p arg := by
  simp only [Every, parts, partsOfArgs_eq_flatMap, List.mem_cons, List.mem_flatMap, forall_eq_or_imp]
  constructor
  · rintro ⟨h, hs⟩
    exact ⟨h, fun arg harg part hpart => hs part ⟨arg, harg, hpart⟩⟩
  · rintro ⟨h, hs⟩
    exact ⟨h, fun part ⟨arg, harg, hpart⟩ => hs arg harg part hpart⟩

theorem Every.self {e : Expr} (h : Every p e) : p e := by
  apply h
  cases e <;> simp

end Expr

end Spreadsheet.Template
