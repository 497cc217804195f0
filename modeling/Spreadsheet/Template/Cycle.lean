/-!
# Cycles of references

When references cannot be resolved, the names that wait on each other form a finite graph.  A
depth-first search from a name tells a cycle from a name that nothing answers to.
-/

namespace Spreadsheet.Template

variable {K : Type} [DecidableEq K]

/-- The names that a name waits on, for the names that wait at all. -/
abbrev Waits (K : Type) := List (K × List K)

/-- The names that a name waits on. -/
def Waits.of (edges : Waits K) (name : K) : Option (List K) :=
  (edges.find? (·.1 == name)).map (·.2)

/-- The first of the names from which the search finds a cycle. -/
def firstCycle (search : K → Option (List K)) : List K → Option (List K)
  | [] => none
  | name :: rest =>
    match search name with
    | some path => some path
    | none => firstCycle search rest

/-- The path to a cycle from a name when `visiting` are the names on the way to it.  Each step adds
a name of the graph to the way, so the number of names is `fuel` enough. -/
def cycleVia (edges : Waits K) : Nat → List K → K → Option (List K)
  | fuel, visiting, name =>
    if visiting.contains name then some [name]
    else
      match fuel, edges.of name with
      | fuel + 1, some next =>
        (firstCycle (cycleVia edges fuel (name :: visiting)) next).map (name :: ·)
      | _, _ => none

/-- A path from a name into a cycle: it ends with the first name that occurs in it twice. -/
def findCycle (start : K) (edges : Waits K) : Option (List K) :=
  cycleVia edges (edges.length + 1) [] start

end Spreadsheet.Template
