import Spreadsheet.Resolve.Evaluate
import Spreadsheet.Proofs.Monad

/-!
# What is taken over from a producer

An element that was produced takes over the id, then the header, then the styles of its producer.
-/

namespace Spreadsheet

/-- Let an element inherit the styles that a producer declares. -/
def Store.inheritStyles (d : Declared) (e : Element) (s : Store) : Store :=
  match e with
  | .cell c => s.updateCell c fun n => { n with style := n.style.inherit d.cellStyle }
  | _ => s.updateAttributes e fun a =>
    { a with
      cellStyle := a.cellStyle.inherit d.cellStyle
      headerStyle := a.headerStyle.inherit d.headerStyle }

namespace BuildM

variable {bare : Store → Bool} {set register : String → BuildM Unit}

/-- Take over a name, if there is one: an element that is bare is given the name, and all others are
registered under it. -/
def takeName (bare : Store → Bool) (set register : String → BuildM Unit) :
    Option String → BuildM Unit
  | some name => do if bare (← get).store then set name else register name
  | none => return

theorem takeName_bind (name : Option String) (rest : BuildM Unit) :
    (takeName bare set register name >>= fun _ => rest) =
      match name with
      | some name => get >>= fun b =>
        if bare b.store then set name >>= fun _ => rest else register name >>= fun _ => rest
      | none => rest := by
  cases name with
  | none => exact pure_bind _ _
  | some name =>
      refine (bind_assoc _ _ _).trans (bind_congr fun b => ?_)
      split <;> rfl

/-- The id comes first, then the header, then the styles. -/
theorem applyDeclared_eq (d : Declared) (e : Element) :
    applyDeclared d e = (do
      takeName (fun s => (s.id? e).isNone) (setId e) (fun id => registerId id e) d.id
      takeName (fun s => (s.header? e).isNone) (setHeader e) (fun header => registerHeader header e)
        d.header
      changeStore (Store.inheritStyles d e)) := by
  rw [takeName_bind, takeName_bind]
  unfold applyDeclared
  cases d.id with
  | none =>
      cases d.header with
      | none => rfl
      | some header => rfl
  | some id =>
      cases d.header with
      | none => rfl
      | some header => rfl

variable {I : Build → Prop}

theorem takeName_upholds (hset : ∀ name, Upholds I (set name))
    (hregister : ∀ name, Upholds I (register name)) (name : Option String) :
    Upholds I (takeName bare set register name) := by
  cases name with
  | none => exact .pure ()
  | some name =>
      refine .get_bind fun t h => ?_
      split
      · exact hset name t h
      · exact hregister name t h

/-- Taking over from a producer keeps what naming and styling an element keep. -/
theorem applyDeclared_upholds {d : Declared} {e : Element} (hsetId : ∀ id, Upholds I (setId e id))
    (hregisterId : ∀ id, Upholds I (registerId id e))
    (hsetHeader : ∀ header, Upholds I (setHeader e header))
    (hregisterHeader : ∀ header, Upholds I (registerHeader header e))
    (hstyles : Upholds I (changeStore (Store.inheritStyles d e))) :
    Upholds I (applyDeclared d e) := by
  rw [applyDeclared_eq]
  apply (takeName_upholds hsetId hregisterId d.id).bind
  intro _
  exact (takeName_upholds hsetHeader hregisterHeader d.header).bind fun _ => hstyles

end BuildM

end Spreadsheet
