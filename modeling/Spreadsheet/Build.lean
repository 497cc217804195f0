import Spreadsheet.Config
import Spreadsheet.Lifetime
import Spreadsheet.Symbols

/-!
# A build

A build is the state in which workbooks are put together: the nodes, the symbol table, the options,
and what has been reported.  The state is kept when an operation fails, so that what was done before
the failure stays done.
-/

namespace Spreadsheet

/-- A line of the report. -/
inductive Notice where
  | warning (text : String)
  | info (text : String)

/-- The state of a build. -/
structure Build where
  store : Store := {}
  /-- The nodes that have gone out of use. -/
  unused : Marks := {}
  symbols : SymbolTable := {}
  config : Config := {}
  /-- Whether the inline use of a cell that is on no sheet has been reported. -/
  inlineWarned : Bool := false
  /-- Whether a reference to nothing has been reported. -/
  missingWarned : Bool := false
  /-- The report, latest line first. -/
  report : List Notice := []
  /-- The nodes held from outside. -/
  pins : List Node := []

instance : Inhabited Build := ⟨{}⟩

/-- An operation of a build. -/
abbrev BuildM := ExceptT SheetError (StateM Build)

namespace Build

/-- Whether a node is in use. -/
def alive (b : Build) (n : Node) : Bool :=
  !b.unused.contains n

/-- The number of names that find something. -/
def symbolCount (b : Build) : Nat :=
  b.symbols.size b.alive

/-- Let nodes go out of use that nothing holds any more. -/
def sweep (b : Build) : Build :=
  { b with unused := b.store.release b.pins b.unused }

/-- Drop the local names that name something under an element. -/
def clearScope (b : Build) (root : Element) : Build :=
  { b with
    symbols := b.symbols.clearScope b.alive ((b.store.subtree root).filterMap Element.node?) }

/-- Drop all local names. -/
def clearLocal (b : Build) : Build :=
  { b with symbols := b.symbols.clearLocal }

/-- Drop all names. -/
def clearAll (b : Build) : Build :=
  { b with symbols := {} }

/-- The element that a key names. -/
def lookup? (b : Build) (key : String) : Option Element :=
  (b.symbols.lookup b.alive key).map Node.element

end Build

namespace BuildM

/-- Read something off the store. -/
def ofStore {α : Type} (f : Store → α) : BuildM α := do
  return f (← get).store

/-- Change the store. -/
def changeStore (f : Store → Store) : BuildM Unit :=
  modify fun b => { b with store := f b.store }

/-- Run an operation on the store. -/
def onStore {α : Type} (f : Store → α × Store) : BuildM α :=
  modifyGet fun b => let (a, store) := f b.store; (a, { b with store })

/-- Add a line to the report. -/
def note (n : Notice) : BuildM Unit :=
  modify fun b => { b with report := n :: b.report }

/-- Register an element under an id. -/
def registerId (key : String) (e : Element) : BuildM Unit := do
  if isValidKey key then
    modify fun b => { b with symbols := { b.symbols with ids := b.symbols.ids.put key e.node? } }
  else throw (.invalidId key)

/-- Register an element under a header.  Headers are shown to readers first of all: one that no
template can name stays on the element and is not registered. -/
def registerHeader (key : String) (e : Element) : BuildM Unit := do
  if isValidKey key then
    modify fun b =>
      { b with symbols := { b.symbols with headers := b.symbols.headers.put key e.node? } }

/-- Report once that the content of an unplaced cell was put into a formula. -/
def warnInline (what : String) : BuildM Unit := do
  if !(← get).inlineWarned then
    modify fun b => { b with inlineWarned := true }
    note (.warning (what ++ " is referenced by a formula but never placed on a sheet; its content "
      ++ "was substituted inline (further substitutions in this build are not reported)"))

/-- Report once that a reference to nothing was written. -/
def warnMissing (what : String) : BuildM Unit := do
  if !(← get).missingWarned then
    modify fun b => { b with missingWarned := true }
    note (.warning (what ++ " is referenced by a formula but never placed and has no content; "
      ++ "wrote #REF! (further missing references in this build are not reported)"))

end BuildM

end Spreadsheet
