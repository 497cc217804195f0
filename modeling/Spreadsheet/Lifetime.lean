import Spreadsheet.Tree

/-!
# Which nodes are in use

A node stays in use as long as something holds it: the outside world, a container that has it as a
child, a call that has it as an operand, an expression that has bound a key to it, or a cell whose
formula points at it.  A node that nothing in use holds goes out of use for good.  Nodes that hold
each other in a circle therefore stay, even when nothing else holds them.
-/

namespace Spreadsheet

/-- A set of nodes. -/
structure Marks where
  cells : Table Bool := .empty
  vectors : Table Bool := .empty
  frames : Table Bool := .empty
  /-- The stacks. -/
  groups : Table Bool := .empty
  expressions : Table Bool := .empty
  calls : Table Bool := .empty

namespace Marks

/-- Whether a node is in the set. -/
def contains (m : Marks) : Node → Bool
  | .cell c => m.cells.get c.index
  | .vector v => m.vectors.get v.index
  | .frame f => m.frames.get f.index
  | .stack k => m.groups.get k.index
  | .expression e => m.expressions.get e.index
  | .call c => m.calls.get c.index

/-- The set with a node for which it has room. -/
def insert (m : Marks) : Node → Marks
  | .cell c => { m with cells := m.cells.update c.index fun _ => true }
  | .vector v => { m with vectors := m.vectors.update v.index fun _ => true }
  | .frame f => { m with frames := m.frames.update f.index fun _ => true }
  | .stack k => { m with groups := m.groups.update k.index fun _ => true }
  | .expression e => { m with expressions := m.expressions.update e.index fun _ => true }
  | .call c => { m with calls := m.calls.update c.index fun _ => true }

end Marks

/-- The nodes that an operand holds. -/
def Argument.nodes : Argument → List Node
  | .literal _ => []
  | .element e => e.node?.toList
  | .expression e => [.expression e]
  | .span first last => [.cell first, .cell last]

namespace Store

/-- The set of the nodes of a store with a property. -/
def nodesWith (s : Store) (p : Node → Bool) : Marks :=
  let table (size : Nat) (node : Nat → Node) : Table Bool :=
    ⟨((List.range size).map fun i => p (node i)).toArray⟩
  { cells := table s.cells.size (.cell ⟨·⟩)
    vectors := table s.vectors.size (.vector ⟨·⟩)
    frames := table s.frames.size (.frame ⟨·⟩)
    groups := table s.groups.size (.stack ⟨·⟩)
    expressions := table s.expressions.size (.expression ⟨·⟩)
    calls := table s.calls.size (.call ⟨·⟩) }

/-- All nodes. -/
def nodes (s : Store) : List Node :=
  (List.range s.cells.size).map (.cell ⟨·⟩) ++ (List.range s.vectors.size).map (.vector ⟨·⟩)
    ++ (List.range s.frames.size).map (.frame ⟨·⟩) ++ (List.range s.groups.size).map (.stack ⟨·⟩)
    ++ (List.range s.expressions.size).map (.expression ⟨·⟩)
    ++ (List.range s.calls.size).map (.call ⟨·⟩)

/-- The nodes that a node holds. -/
def holds (s : Store) : Node → List Node
  | .cell c => ((s.cell c).formula.map Formula.nodes).getD []
  | .vector v => (s.vector v).children.filterMap Element.node?
  | .frame f => (s.frame f).children.filterMap Element.node?
  | .stack k => (s.stack k).children.filterMap Element.node?
  | .expression e => (s.expression e).bound.filterMap fun entry => entry.2.node?
  | .call c => (s.call c).args.flatMap Argument.nodes

/-- The nodes held by the roots or by a node that is not marked as out of use. -/
def held (s : Store) (roots : List Node) (unused : Marks) : Marks :=
  let holders := s.nodes.filter (!unused.contains ·)
  (roots ++ holders.flatMap s.holds).foldl Marks.insert (s.nodesWith fun _ => false)

/-- The nodes out of use once those that nothing holds are added, at most `fuel` times over. -/
def releaseWithin (s : Store) (roots : List Node) : Nat → Marks → Marks
  | 0, unused => unused
  | fuel + 1, unused =>
    let held := s.held roots unused
    if s.nodes.all fun n => unused.contains n || held.contains n then unused
    else s.releaseWithin roots fuel (s.nodesWith fun n => unused.contains n || !held.contains n)

/-- The nodes out of use when the outside world holds the roots only. -/
def release (s : Store) (roots : List Node) (unused : Marks) : Marks :=
  s.releaseWithin roots (s.nodes.length + 1) unused

end Store

end Spreadsheet
