import Spreadsheet.Text.Blank
import Spreadsheet.Element
import Spreadsheet.Error

/-!
# The symbol table

Elements answer to ids and to headers.  Each kind of name has local entries, which are dropped when
a sheet is isolated and at the end of every write, and global entries, registered under a key that
starts with `G::` and kept without it.  The last registration under a key wins.  The table keeps no
element alive: an entry whose element is no longer in use finds nothing.
-/

namespace Spreadsheet

/-- What puts a key among the global entries. -/
def globalMarker : List Char :=
  "G::".toList

/-- The name after the global marker of a key, if it has one. -/
def globalName? (key : String) : Option String :=
  if globalMarker.isPrefixOf key.toList then
    some (String.ofList (key.toList.drop globalMarker.length))
  else none

/-- Whether a key can be named in a template: it is not blank and has no brackets. -/
def isValidKey (key : String) : Bool :=
  let bare := (globalName? key).getD key
  !(Text.trim bare.toList).isEmpty && !key.toList.any fun c => c == '[' || c == ']'

/-- The entries under names of one kind; an entry without a node finds nothing. -/
abbrev Entries := List (String × Option Node)

namespace Entries

/-- Put an entry, in place of an older one under the same name. -/
def put (entries : Entries) (name : String) (node : Option Node) : Entries :=
  (name, node) :: entries.filter (·.1 != name)

/-- The node of an entry, if it is in use. -/
def find? (alive : Node → Bool) (entries : Entries) (name : String) : Option Node :=
  ((entries.lookup name).join).filter alive

/-- The entries whose node is in use and not in a scope. -/
def outside (alive : Node → Bool) (scope : List Node) (entries : Entries) : Entries :=
  entries.filter fun entry => entry.2.any fun node => alive node && !scope.contains node

/-- The number of entries whose node is in use. -/
def countAlive (alive : Node → Bool) (entries : Entries) : Nat :=
  entries.countP fun entry => entry.2.any alive

@[simp] theorem find?_put_self (alive : Node → Bool) (entries : Entries) (name : String)
    (node : Option Node) : (entries.put name node).find? alive name = node.filter alive := by
  simp [find?, put]

theorem lookup_put_of_ne (entries : Entries) {name other : String} (node : Option Node)
    (h : other ≠ name) : (entries.put name node).lookup other = entries.lookup other := by
  have hb : (other == name) = false := by simp [h]
  have keep : (entries.filter (·.1 != name)).lookup other = entries.lookup other := by
    induction entries with
    | nil => rfl
    | cons entry rest ih =>
      obtain ⟨key, value⟩ := entry
      by_cases hk : key = name
      · subst hk
        simp [List.lookup_cons, hb, ih]
      · simp [List.lookup_cons, hk, ih]
  simp [put, List.lookup_cons, hb, keep]

theorem find?_put_of_ne (alive : Node → Bool) (entries : Entries) {name other : String}
    (node : Option Node) (h : other ≠ name) :
    (entries.put name node).find? alive other = entries.find? alive other := by
  simp only [find?, lookup_put_of_ne entries node h]

end Entries

/-- The local and the global entries under one kind of name. -/
structure Namespace where
  localEntries : Entries := []
  globalEntries : Entries := []

/-- Put an entry where its key says. -/
def Namespace.put (n : Namespace) (key : String) (node : Option Node) : Namespace :=
  match globalName? key with
  | some name => { n with globalEntries := n.globalEntries.put name node }
  | none => { n with localEntries := n.localEntries.put key node }

/-- The symbol table. -/
structure SymbolTable where
  ids : Namespace := {}
  headers : Namespace := {}

namespace SymbolTable

/-- The node that a key names: local before global, ids before headers.  A key with the global
marker names global entries only. -/
def lookup (t : SymbolTable) (alive : Node → Bool) (key : String) : Option Node :=
  match globalName? key with
  | some name =>
    t.ids.globalEntries.find? alive name <|> t.headers.globalEntries.find? alive name
  | none =>
    t.ids.localEntries.find? alive key <|> t.headers.localEntries.find? alive key
      <|> t.ids.globalEntries.find? alive key <|> t.headers.globalEntries.find? alive key

/-- Drop the local entries that name a node of the scope or nothing in use. -/
def clearScope (t : SymbolTable) (alive : Node → Bool) (scope : List Node) : SymbolTable where
  ids := { t.ids with localEntries := t.ids.localEntries.outside alive scope }
  headers := { t.headers with localEntries := t.headers.localEntries.outside alive scope }

/-- Drop the local entries. -/
def clearLocal (t : SymbolTable) : SymbolTable where
  ids := { t.ids with localEntries := [] }
  headers := { t.headers with localEntries := [] }

/-- The number of entries that name something in use. -/
def size (t : SymbolTable) (alive : Node → Bool) : Nat :=
  t.ids.localEntries.countAlive alive + t.ids.globalEntries.countAlive alive
    + t.headers.localEntries.countAlive alive + t.headers.globalEntries.countAlive alive

/-- Names with the global marker do not depend on the local entries. -/
theorem lookup_clearLocal (t : SymbolTable) (alive : Node → Bool) {key name : String}
    (h : globalName? key = some name) : t.clearLocal.lookup alive key = t.lookup alive key := by
  simp [lookup, h, clearLocal]

/-- An empty table finds nothing. -/
theorem lookup_empty (alive : Node → Bool) (key : String) :
    ({} : SymbolTable).lookup alive key = none := by
  unfold lookup
  split <;> rfl

end SymbolTable

end Spreadsheet
