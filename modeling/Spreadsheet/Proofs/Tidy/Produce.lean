import Spreadsheet.Proofs.Resolve.History
import Spreadsheet.Proofs.Tidy.Children

/-!
# Producing in a tidy build

A producer in use is evaluated over elements at hand, so what it makes may stand in the build.  It is
new, and if it is a frame, it is the only new frame and nothing holds it.  A container that takes its
parts and leaves the frame may therefore turn the vectors it takes.
-/

namespace Spreadsheet

open Store

/-! ## Evaluating -/

namespace Build

variable {b m t : Build} {e : Element}

/-- Whether a build is tidy and holds the same nodes from outside as another. -/
structure Stays (b t : Build) : Prop where
  tidy : t.Tidy
  use : t.use = b.use

/-- Whether an element has been made in a build, and is at hand.  If it is a frame, it is the only new
frame, and nothing holds it. -/
structure Produces (b m : Build) (e : Element) : Prop where
  there : e.Meets m.store.Has
  frames : ∀ f, m.store.Has (.frame f) → b.store.Has (.frame f) ∨ e = .frame f
  loose : ∀ f, e = .frame f → ∀ n, b.Alive n → .frame f ∉ m.store.holds n

theorem Tidy.produces (h : b.Tidy) {s : Store} (delivers : Delivers b.Alive b.store s e) :
    Stays b { b with store := s } ∧ Produces b { b with store := s } e :=
  ⟨⟨h.restock delivers.tidy delivers.grown.has, rfl⟩, delivers.there, delivers.frames,
    delivers.loose⟩

theorem Produces.decorate (h : Produces b m e) (decorates : Decorates e m t) : Produces b t e where
  there := h.there.imp fun n => (decorates.dresses.has n).2
  frames f there := h.frames f ((decorates.dresses.has _).1 there)
  loose f same n used := by
    rw [decorates.dresses.holds]
    exact h.loose f same n used

end Build

namespace BuildM

open Build

variable {b m t : Build} {container child produced : Element} {α : Type}

theorem ofExcept_gives {x : Except SheetError α} {P : α → Prop} {I : Build → Prop} (h : I b)
    (gives : Gives P x) : Ensures (ofExcept x) b I fun a t => t = b ∧ P a := by
  cases x with
  | ok a => exact .pure h ⟨rfl, gives⟩
  | error e => exact .throw h

theorem liftStore_produces (h : b.Tidy) {f : α → Element} {x : StoreM α}
    (delivers : ∀ a s, Leads x b.store a s → Delivers b.Alive b.store s (f a)) :
    Ensures (liftStore x) b (Stays b) fun a t => Produces b t (f a) :=
  ensures_liftStore fun a s led => h.produces (delivers a s led)

/-- The element for a value over elements at hand. -/
theorem elementFor_produces (h : b.Tidy) {v : Value} (meets : v.Meets (b.store.AtHand b.Alive))
    (reference : Bool) :
    Ensures (elementFor v reference) b (Stays b) fun e t => Produces b t e := by
  have still : Stays b b := ⟨h, rfl⟩
  have copied : ∀ {ι : Type} {f : ι → Element} {x : StoreM ι},
      (∀ a s, Leads x b.store a s → Delivers b.Alive b.store s (f a)) →
      Ensures (do return f (← liftStore x)) b (Stays b) fun e t => Produces b t e :=
    fun delivers => (liftStore_produces h delivers).bind fun _ _ stays made => .pure stays made
  unfold elementFor
  apply Ensures.get_bind
  split
  · exact liftStore_produces (f := id) h fun _ _ => StoreM.elementOf_delivers h.store meets
  · exact .throw still
  · refine copied fun d s led => ?_
    obtain ⟨supplies, there⟩ := StoreM.copyCell_supplies h.store (meets _ rfl).2 led
    exact supplies.delivers_cell there
  · refine copied fun w s led => ?_
    obtain ⟨supplies, there, -⟩ := StoreM.copyVector_supplies h.store (meets _ rfl).2 led
    exact supplies.delivers_vector there
  · exact copied fun _ _ => StoreM.copyFrame_delivers h.store (meets _ rfl).2
  · refine (ofExcept_gives still (gridOf_meets h.store meets)).bind fun g t _ both => ?_
    obtain ⟨rfl, meets⟩ := both
    exact liftStore_produces (f := id) h fun _ _ => StoreM.elementOf_delivers h.store meets

/-- The element for a value takes over what a producer declares. -/
theorem produced_produces (h : b.Tidy) {x : Except SheetError Value}
    (gives : Gives (Value.Meets (b.store.AtHand b.Alive)) x) (reference : Bool) (d : Declared) :
    Ensures (do
      let element ← elementFor (← ofExcept x) reference
      applyDeclared d element
      return element) b (Stays b) fun e t => Produces b t e := by
  refine (ofExcept_gives ⟨h, rfl⟩ gives).bind fun v t _ both => ?_
  obtain ⟨rfl, meets⟩ := both
  refine (elementFor_produces h meets reference).bind fun e u stays made => ?_
  have declared : Ensures (applyDeclared d e) u (Stays t) fun _ u => Produces t u e := by
    have decorates := applyDeclared_decorates d e u (Decorates.refl e u)
    have tidy := stays.tidy.decorate decorates made.there
    exact ⟨⟨tidy, decorates.use.trans stays.use⟩, fun _ _ => made.decorate decorates⟩
  exact declared.bind fun _ _ stays made => .pure stays made

theorem evalExpression_produces (h : b.Tidy) {e : ExpressionId} (used : b.Alive (.expression e))
    (hint : Option Dimension) (reference : Bool) :
    Ensures (evalExpression e hint reference) b (Stays b) fun e t => Produces b t e :=
  Ensures.get_bind (produced_produces h (expressionValue_meets h.store used hint) _ _)

theorem evalCall_produces (h : b.Tidy) {c : CallId} (used : b.Alive (.call c))
    (hint : Option Dimension) :
    Ensures (evalCall c hint) b (Stays b) fun e t => Produces b t e :=
  Ensures.get_bind (produced_produces h (callNodeValue_meets h.store used hint) _ _)

theorem evaluate_produces (container : Element) (h : b.Tidy) (used : child.Meets b.Alive) (ready : b.ready child = true) :
    Ensures (evaluate container child) b (Stays b) fun e t => Produces b t e := by
  cases child with
  | expression e => exact evalExpression_produces h (used _ rfl) _ true
  | call c => exact evalCall_produces h (used _ rfl) _
  | _ => cases ready

end BuildM

end Spreadsheet
