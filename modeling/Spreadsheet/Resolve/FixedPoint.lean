import Spreadsheet.Resolve.Pass
import Spreadsheet.Template.Cycle

/-!
# Resolving references

Passes are made over all roots until nothing is pending.  A pass that makes no progress is the last:
progress means that fewer producers or fewer unbound keys are left.  What is left is reported by the
first pending producer, and by a circle of names if there is one.
-/

namespace Spreadsheet

namespace Store

/-- The keys for which a producer waits, as text. -/
def waitsFor (s : Store) : Element → List String
  | .expression e => (s.unboundKeys e).map (·.text)
  | .call c => (s.callKeys c).map (·.text)
  | _ => []

/-- The producers under the roots, in order. -/
def pending (s : Store) (roots : List Element) : List Element :=
  roots.flatMap fun root => (s.subtree root).filter isProducer

/-- What is left to be done under the roots: producers and the keys for which they wait. -/
def pendingWeight (s : Store) (roots : List Element) : Nat :=
  Number.total ((s.pending roots).map fun e => 1 + (s.waitsFor e).length)

/-- The names under which a producer's result is to be found. -/
def producedNames (s : Store) (e : Element) : List String :=
  (s.id? e).toList ++ (s.header? e).toList

end Store

/-- Add names that a name waits on. -/
def Template.Waits.add (edges : Template.Waits String) (name : String) (keys : List String) :
    Template.Waits String :=
  if edges.any (·.1 == name) then
    edges.map fun entry => if entry.1 == name then (name, entry.2 ++ keys) else entry
  else edges ++ [(name, keys)]

namespace Store

/-- Which produced names wait on which names. -/
def waits (s : Store) (roots : List Element) : Template.Waits String :=
  (s.pending roots).foldl
    (fun edges e =>
      (s.producedNames e).foldl (fun edges name => edges.add name (s.waitsFor e)) edges) []

/-- A producer in short, for messages. -/
def producerText (s : Store) : Element → String
  | .expression e => (s.expression e).template.source
  | .call c => s.callText c
  | e => (s.kind e).name

/-- The error that reports what cannot be resolved. -/
def unresolvedError (s : Store) (roots : List Element) : SheetError :=
  match s.pending roots with
  | [] => .unresolvedReference "" [] none
  | first :: _ =>
    let keys := s.waitsFor first
    let edges := s.waits roots
    .unresolvedReference (s.producerText first) keys
      ((s.producedNames first ++ keys).findSome? (Template.findCycle · edges))

end Store

namespace BuildM

/-- One pass over each root; whether nothing is pending any more. -/
def passAll : List Element → BuildM Bool
  | [] => return true
  | root :: rest => do
    let done ← pass root
    let restDone ← passAll rest
    return done && restDone

/-- Make at most `attempts` passes, as long as each leaves less to be done than the one before. -/
def resolveWithin (roots : List Element) : Nat → Option Nat → BuildM Unit
  | 0, _ => do throw ((← get).store.unresolvedError roots)
  | attempts + 1, last => do
    if ← passAll roots then return
    let weight := (← get).store.pendingWeight roots
    if last.any (· ≤ weight) then throw ((← get).store.unresolvedError roots)
    resolveWithin roots attempts (some weight)

/-- Replace every producer under the roots. -/
def resolve (roots : List Element) : BuildM Unit := do
  resolveWithin roots (max (← get).config.maxResolveAttempts 1) none

end BuildM

end Spreadsheet
