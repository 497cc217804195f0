import Spreadsheet.Resolve.Pass
import Spreadsheet.Proofs.Build

/-!
# The steps of a pass

A pass takes the children of a container one after another.  It goes below a container, puts what a
producer makes in its place, lets a producer wait that is not ready, and leaves all others as they are.
-/

namespace Spreadsheet.BuildM

open Store

variable {b b' m : Build} {below : Element → BuildM Bool} {container child produced : Element}
  {before list rest spliced : List Element} {done d : Bool}

/-! ## One producer -/

/-- Try a producer among the children of a container, and put in its place what the container makes of
its result. -/
def replace? (container : Element) (before : List Element) (child : Element) (rest : List Element) :
    BuildM (Option (Element × List Element)) := do
  match ← produce? container child with
  | some produced =>
    let spliced ← fit container produced
    changeStore fun s => s.setChildren container (before ++ spliced ++ rest)
    modify Build.sweep
    return some (produced, spliced)
  | none => return none

theorem runs_replace?_eq_some :
    Runs (replace? container before child rest) b (some (produced, spliced)) b' ↔
      ∃ m₁ m₂, Runs (produce? container child) b (some produced) m₁ ∧
        Runs (fit container produced) m₁ spliced m₂ ∧ b' = Build.sweep
          { m₂ with store := m₂.store.setChildren container (before ++ spliced ++ rest) } := by
  constructor
  · intro run
    obtain ⟨r, m₁, tried, run⟩ := runs_bind.1 run
    cases r with
    | none => cases (runs_pure.1 run).1
    | some x =>
        obtain ⟨l, m₂, fitted, run⟩ := runs_bind.1 run
        obtain ⟨_, _, stored, run⟩ := runs_bind.1 run
        obtain ⟨_, _, swept, run⟩ := runs_bind.1 run
        obtain rfl := runs_changeStore.1 stored
        obtain rfl := runs_modify.1 swept
        obtain ⟨same, rfl⟩ := runs_pure.1 run
        cases same
        exact ⟨m₁, m₂, tried, fitted, rfl⟩
  · rintro ⟨m₁, m₂, tried, fitted, rfl⟩
    refine runs_bind.2 ⟨_, m₁, tried, runs_bind.2 ⟨_, m₂, fitted, ?_⟩⟩
    exact runs_bind.2 ⟨(), _, runs_changeStore.2 rfl,
      runs_bind.2 ⟨(), _, runs_modify.2 rfl, runs_pure.2 ⟨rfl, rfl⟩⟩⟩

theorem runs_replace?_eq_none : Runs (replace? container before child rest) b none b' ↔
    Runs (produce? container child) b none b' := by
  constructor
  · intro run
    obtain ⟨r, m₁, tried, run⟩ := runs_bind.1 run
    cases r with
    | none =>
        obtain ⟨-, rfl⟩ := runs_pure.1 run
        exact tried
    | some x =>
        obtain ⟨l, m₂, -, run⟩ := runs_bind.1 run
        obtain ⟨_, _, -, run⟩ := runs_bind.1 run
        obtain ⟨_, _, -, run⟩ := runs_bind.1 run
        cases (runs_pure.1 run).1
  · intro tried
    exact runs_bind.2 ⟨none, b', tried, runs_pure.2 ⟨rfl, rfl⟩⟩

/-- A pass comes to a producer: it tries to replace it, and goes on. -/
theorem passChildren_producer (below : Element → BuildM Bool) (producer : isProducer child = true) :
    passChildren below container before (child :: rest) =
      replace? container before child rest >>= fun
        | some (_, spliced) => passChildren below container (before ++ spliced) rest
        | none => do
          let _ ← passChildren below container (before ++ [child]) rest
          return false := by
  have leaf : child.isContainer = false := by
    cases child <;> first | rfl | cases producer
  rw [passChildren, leaf, if_neg Bool.false_ne_true, if_pos producer]
  simp only [replace?, bind_assoc]
  refine bind_congr fun r => ?_
  cases r <;> simp

/-! ## All children -/

/-- What a pass over the children of a container does, with its answer. -/
inductive Passes (below : Element → BuildM Bool) (container : Element) :
    List Element → List Element → Build → Bool → Build → Prop
  | nil {before : List Element} {b : Build} : Passes below container before [] b true b
  | inside {before rest : List Element} {child : Element} {b m b' : Build} {done d : Bool}
      (inner : child.isContainer = true) (first : Runs (below child) b done m)
      (others : Passes below container (before ++ [child]) rest m d b') :
      Passes below container before (child :: rest) b (done && d) b'
  | replaced {before rest spliced : List Element} {child produced : Element} {b m b' : Build}
      {d : Bool} (producer : isProducer child = true)
      (first : Runs (replace? container before child rest) b (some (produced, spliced)) m)
      (others : Passes below container (before ++ spliced) rest m d b') :
      Passes below container before (child :: rest) b d b'
  | waiting {before rest : List Element} {child : Element} {b m b' : Build} {d : Bool}
      (producer : isProducer child = true) (first : Runs (produce? container child) b none m)
      (others : Passes below container (before ++ [child]) rest m d b') :
      Passes below container before (child :: rest) b false b'
  | settled {before rest : List Element} {child : Element} {b b' : Build} {d : Bool}
      (leaf : child.isContainer = false) (other : isProducer child = false)
      (others : Passes below container (before ++ [child]) rest b d b') :
      Passes below container before (child :: rest) b d b'

theorem passes_of_runs (run : Runs (passChildren below container before list) b d b') :
    Passes below container before list b d b' := by
  induction list generalizing before b d with
  | nil =>
      obtain ⟨rfl, rfl⟩ := runs_pure.1 run
      exact .nil
  | cons child rest ih =>
      by_cases producer : isProducer child = true
      · rw [passChildren_producer _ producer] at run
        obtain ⟨r, m, first, run⟩ := runs_bind.1 run
        cases r with
        | none =>
            obtain ⟨_, _, others, run⟩ := runs_bind.1 run
            obtain ⟨rfl, rfl⟩ := runs_pure.1 run
            exact .waiting producer (runs_replace?_eq_none.1 first) (ih others)
        | some made => exact .replaced producer first (ih run)
      · rw [passChildren] at run
        split at run
        case isTrue inner =>
          obtain ⟨done, m, first, run⟩ := runs_bind.1 run
          obtain ⟨_, _, others, run⟩ := runs_bind.1 run
          obtain ⟨rfl, rfl⟩ := runs_pure.1 run
          exact .inside inner first (ih others)
        case isFalse leaf =>
          rw [Bool.not_eq_true] at leaf producer
          exact .settled leaf producer (ih run)

theorem Passes.runs (h : Passes below container before list b d b') :
    Runs (passChildren below container before list) b d b' := by
  induction h with
  | nil => exact runs_pure.2 ⟨rfl, rfl⟩
  | inside inner first _ ih =>
      rw [passChildren, if_pos inner]
      exact runs_bind.2 ⟨_, _, first, runs_bind.2 ⟨_, _, ih, runs_pure.2 ⟨rfl, rfl⟩⟩⟩
  | replaced producer first _ ih =>
      rw [passChildren_producer _ producer]
      exact runs_bind.2 ⟨_, _, first, ih⟩
  | waiting producer first _ ih =>
      rw [passChildren_producer _ producer]
      refine runs_bind.2 ⟨none, _, runs_replace?_eq_none.2 first, ?_⟩
      exact runs_bind.2 ⟨_, _, ih, runs_pure.2 ⟨rfl, rfl⟩⟩
  | settled leaf other _ ih =>
      rw [passChildren, leaf, other, if_neg Bool.false_ne_true, if_neg Bool.false_ne_true]
      exact ih

end Spreadsheet.BuildM
