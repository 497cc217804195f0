import Spreadsheet.Proofs.Resolve.Novel
import Spreadsheet.Proofs.Resolve.Replace
import Spreadsheet.Proofs.Resolve.Stalled

/-!
# The names of what is produced

What a producer makes takes over its id.  The table of names holds no element, so the id finds
something only as long as the trees do: where a container takes what was produced as a whole, it does,
and where a container takes the parts, the element that had the id is gone.
-/

namespace Spreadsheet

open Store

/-! ## Taking over an id -/

namespace SymbolTable

variable {t : SymbolTable} {alive : Node → Bool} {n : Node}

theorem lookup_put {ids : Namespace} {key : String} (put : t.ids = ids.put key (some n))
    (used : alive n = true) : t.lookup alive key = some n := by
  have found : (some n).filter alive = some n := by simp [used]
  unfold lookup
  rw [put, Namespace.put]
  cases globalName? key with
  | none => simp [found]
  | some name => simp [found]

end SymbolTable

namespace BuildM

variable {b b' : Build} {e : Element} {u : Unit}

theorem registerId_ids {id : String} (run : Runs (registerId id e) b u b') :
    b'.store = b.store ∧ b'.symbols.ids = b.symbols.ids.put id e.node? := by
  unfold registerId at run
  split at run
  · obtain rfl := runs_modify.1 run
    exact ⟨rfl, rfl⟩
  · exact absurd run not_runs_throw

theorem registerHeader_ids {header : String} (run : Runs (registerHeader header e) b u b') :
    b'.store = b.store ∧ b'.symbols.ids = b.symbols.ids := by
  unfold registerHeader at run
  split at run
  · obtain rfl := runs_modify.1 run
    exact ⟨rfl, rfl⟩
  · obtain ⟨-, rfl⟩ := runs_pure.1 run
    exact ⟨rfl, rfl⟩

theorem setId_ids {id : String} (run : Runs (setId e id) b u b') :
    Alike b.store b'.store ∧ b'.symbols.ids = b.symbols.ids.put id e.node? := by
  obtain ⟨_, m, registered, changed⟩ := runs_bind.1 run
  obtain ⟨store, ids⟩ := registerId_ids registered
  obtain rfl := runs_changeStore.1 changed
  refine ⟨?_, ids⟩
  rw [← store]
  dsimp only
  cases e with
  | cell c => exact alike_updateCell _ c fun _ => (rfl)
  | expression x => exact (relabels_updateExpression _ x _).toAlike
  | call c => exact (relabels_updateCall _ c _).toAlike
  | _ => exact alike_updateAttributes _ _ _

theorem setHeader_ids {header : String} (run : Runs (setHeader e header) b u b') :
    Alike b.store b'.store ∧ b'.symbols.ids = b.symbols.ids := by
  obtain ⟨_, m, registered, changed⟩ := runs_bind.1 run
  obtain ⟨store, ids⟩ := registerHeader_ids registered
  obtain rfl := runs_changeStore.1 changed
  refine ⟨?_, ids⟩
  rw [← store]
  dsimp only
  cases e with
  | cell c => exact alike_updateCell _ c fun _ => (rfl)
  | vector v => exact alike_updateVector _ v fun _ => rfl
  | expression x => exact (relabels_updateExpression _ x _).toAlike
  | call c => exact (relabels_updateCall _ c _).toAlike
  | _ => exact .refl _

/-- Taking over an id, if there is one, registers the element under it. -/
theorem takeId_ids {name : Option String} (run : Runs (takeName (fun s => (s.id? e).isNone) (setId e)
    (fun id => registerId id e) name) b u b') :
    Alike b.store b'.store ∧ ∀ id ∈ name, b'.symbols.ids = b.symbols.ids.put id e.node? := by
  cases name with
  | none =>
      obtain ⟨-, rfl⟩ := runs_pure.1 run
      exact ⟨.refl _, fun id hid => by cases hid⟩
  | some name =>
      obtain ⟨_, _, got, run⟩ := runs_bind.1 run
      obtain ⟨rfl, rfl⟩ := runs_get.1 got
      split at run
      · obtain ⟨alike, ids⟩ := setId_ids run
        exact ⟨alike, fun id hid => Option.some.inj hid ▸ ids⟩
      · obtain ⟨store, ids⟩ := registerId_ids run
        exact ⟨store ▸ .refl _, fun id hid => Option.some.inj hid ▸ ids⟩

/-- Taking over a header leaves the ids alone. -/
theorem takeHeader_ids {name : Option String} (run : Runs (takeName (fun s => (s.header? e).isNone)
    (setHeader e) (fun header => registerHeader header e) name) b u b') :
    Alike b.store b'.store ∧ b'.symbols.ids = b.symbols.ids := by
  cases name with
  | none =>
      obtain ⟨-, rfl⟩ := runs_pure.1 run
      exact ⟨.refl _, rfl⟩
  | some name =>
      obtain ⟨_, _, got, run⟩ := runs_bind.1 run
      obtain ⟨rfl, rfl⟩ := runs_get.1 got
      split at run
      · exact setHeader_ids run
      · obtain ⟨store, ids⟩ := registerHeader_ids run
        exact ⟨store ▸ .refl _, ids⟩

/-- What an element takes over from a producer changes no tree, and registers it under the id. -/
theorem applyDeclared_ids {d : Declared} (run : Runs (applyDeclared d e) b u b') :
    Alike b.store b'.store ∧ ∀ id ∈ d.id, b'.symbols.ids = b.symbols.ids.put id e.node? := by
  rw [applyDeclared_eq] at run
  obtain ⟨_, m₁, named, run⟩ := runs_bind.1 run
  obtain ⟨_, m₂, headed, styled⟩ := runs_bind.1 run
  obtain ⟨first, ids⟩ := takeId_ids named
  obtain ⟨second, same⟩ := takeHeader_ids headed
  obtain rfl := runs_changeStore.1 styled
  refine ⟨(first.trans second).trans (alike_inheritStyles d e _), fun id hid => ?_⟩
  exact same.trans (ids id hid)

/-- What evaluating a producer comes down to: an element for a value takes over what the producer
declares. -/
theorem runs_produced {value : Except SheetError Value} {reference : Bool} {d : Declared}
    {x : Element} (run : Runs (do
      let element ← elementFor (← ofExcept value) reference
      applyDeclared d element
      return element) b x b') :
    ∃ v m, Runs (elementFor v reference) b x m ∧ Runs (applyDeclared d x) m () b' := by
  obtain ⟨v, m₁, evaluated, run⟩ := runs_bind.1 run
  obtain ⟨y, m₂, made, run⟩ := runs_bind.1 run
  obtain ⟨_, m₃, declared, run⟩ := runs_bind.1 run
  obtain ⟨rfl, rfl⟩ := runs_pure.1 run
  obtain rfl : m₁ = b := Keeps.of_runs (ofExcept_keeps _ : Keeps id (ofExcept _)) evaluated
  exact ⟨v, m₂, made, declared⟩

/-- What a producer that is ready comes down to: keys are bound, and a new element takes over what the
producer declares. -/
theorem runs_produce?_eq_some {container child x : Element}
    (run : Runs (produce? container child) b (some x) b') :
    ∃ m₁ m₂ value reference d, Binds b.store m₁.store ∧ m₁.symbols = b.symbols ∧
      d.id = b.store.id? child ∧ Runs (elementFor value reference) m₁ x m₂ ∧
      Runs (applyDeclared d x) m₂ () b' := by
  have quiet : Build.Quiet Build.symbols := fun _ _ _ => rfl
  cases child with
  | expression e =>
      obtain ⟨ready, m, attempted, run⟩ := runs_bind.1 run
      obtain ⟨-, rfl⟩ := runs_attemptExpression.1 attempted
      have binds := Build.bindKeys_binds (some container) e b
      split at run
      case isTrue =>
        obtain ⟨y, _, evaluated, run⟩ := runs_bind.1 run
        obtain ⟨same, rfl⟩ := runs_pure.1 run
        obtain rfl := Option.some.inj same
        obtain ⟨_, _, got, evaluated⟩ := runs_bind.1 evaluated
        obtain ⟨rfl, rfl⟩ := runs_get.1 got
        obtain ⟨value, m₂, element, declared⟩ := runs_produced evaluated
        exact ⟨_, m₂, value, _, _, binds, quiet.bindKeys e b, binds.id (.expression e), element, declared⟩
      case isFalse => cases (runs_pure.1 run).1
  | call c =>
      obtain ⟨ready, m, attempted, run⟩ := runs_bind.1 run
      obtain rfl := eq_of_attemptCall attempted
      have binds := Build.bindArguments_binds (some container) (b.store.call c).args b
      split at run
      case isTrue =>
        obtain ⟨y, _, evaluated, run⟩ := runs_bind.1 run
        obtain ⟨same, rfl⟩ := runs_pure.1 run
        obtain rfl := Option.some.inj same
        obtain ⟨_, _, got, evaluated⟩ := runs_bind.1 evaluated
        obtain ⟨rfl, rfl⟩ := runs_get.1 got
        obtain ⟨value, m₂, element, declared⟩ := runs_produced evaluated
        exact ⟨_, m₂, value, _, _, binds, quiet.bindArguments _ b, binds.id (.call c), element,
          declared⟩
      case isFalse => cases (runs_pure.1 run).1
  | _ => cases (runs_pure.1 run).1

end BuildM

end Spreadsheet
