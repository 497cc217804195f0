import Spreadsheet.Toml.Value

/-!
# Tables in the making

A TOML document says where each entry goes: below the table of the last header, along a dotted key.
How a table came about decides what may be added to it later.  A table that a header only passes
through can still be defined; one made by a dotted key takes more dotted keys; one that has its own
header or braces takes no dotted keys from elsewhere.
-/

namespace Spreadsheet.Toml

/-- How a table came about. -/
inductive Origin where
  /-- A header passed through it. -/
  | implied
  /-- A dotted key passed through it. -/
  | dotted
  /-- It has a header of its own, or is an element of a list of tables. -/
  | defined
deriving DecidableEq

/-- What a key stands for while a document is read. -/
inductive Item where
  | value (value : Value)
  | table (origin : Origin) (entries : List (String × Item))
  /-- A list of tables, the latest first. -/
  | tables (elements : List (List (String × Item)))

/-- The entries of a table. -/
abbrev Items := List (String × Item)

namespace Items

/-- Replace the item of a key. -/
def replace (items : Items) (key : String) (item : Item) : Items :=
  items.map fun entry => if entry.1 == key then (key, item) else entry

/-- Change the table at the end of a path; tables that are missing are made. -/
def within (dotted : Bool) (change : Origin → Items → Option Items) :
    List String → Origin → Items → Option Items
  | [], origin, items => change origin items
  | key :: path, _, items =>
    match items.lookup key with
    | none => do
      let origin := if dotted then .dotted else .implied
      let inner ← within dotted change path origin []
      return items ++ [(key, .table origin inner)]
    | some (.table origin inner) =>
      if dotted && origin = .defined then none
      else do return items.replace key (.table origin (← within dotted change path origin inner))
    | some (.tables (last :: earlier)) => do
      return items.replace key (.tables ((← within dotted change path .defined last) :: earlier))
    | some (.tables []) | some (.value _) => none

/-- Add an entry to a table.  Dotted keys only add to tables made by dotted keys. -/
def addValue (isDotted : Bool) (key : String) (value : Value) (origin : Origin) (items : Items) :
    Option Items :=
  if decide (origin = .dotted) != isDotted || (items.lookup key).isSome then none
  else some (items ++ [(key, .value value)])

/-- Add an entry along a dotted key. -/
def addEntry (path : List String) (value : Value) (origin : Origin) (items : Items) :
    Option Items := do
  let key ← path.getLast?
  within true (addValue (1 < path.length) key value) path.dropLast origin items

/-- Define the table of a header. -/
def openTable (key : String) (items : Items) : Option Items :=
  match items.lookup key with
  | none => some (items ++ [(key, .table .defined [])])
  | some (.table .implied inner) => some (items.replace key (.table .defined inner))
  | some _ => none

/-- Add an element to the list of tables of a header. -/
def openElement (key : String) (items : Items) : Option Items :=
  match items.lookup key with
  | none => some (items ++ [(key, .tables [[]])])
  | some (.tables elements) => some (items.replace key (.tables ([] :: elements)))
  | some _ => none

end Items

mutual

/-- The value that an item has become. -/
def Item.toValue : Item → Value
  | .value v => v
  | .table _ entries => .table (entryValues entries)
  | .tables elements => .array (elementValues elements).reverse

/-- The values of the entries of a table. -/
def entryValues : List (String × Item) → List (String × Value)
  | [] => []
  | (key, item) :: rest => (key, item.toValue) :: entryValues rest

/-- The values of the elements of a list of tables. -/
def elementValues : List (List (String × Item)) → List Value
  | [] => []
  | entries :: rest => .table (entryValues entries) :: elementValues rest

end

end Spreadsheet.Toml
