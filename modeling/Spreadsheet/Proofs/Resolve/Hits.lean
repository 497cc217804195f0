import Spreadsheet.Proofs.Resolve.Binding
import Spreadsheet.Proofs.Symbols

/-!
# Where a name is sought

A name is sought in six places, one after another: among the children of the container by id and by
header, and in the four maps of the symbol table.  The first place that has an element for it decides.
If nothing is pending under that element the name is bound to it, and else the name is not bound,
whatever the later places have.
-/

namespace Spreadsheet

open Store
open Template (Key)

namespace Build

/-- Where a name is sought from inside a container. -/
inductive Place where
  | childId
  | childHeader
  | shelf (shelf : Shelf)

/-- The places in the order in which a name is sought. -/
def Place.order : List Place :=
  [.childId, .childHeader] ++ Shelf.order.map .shelf

/-- The element that a place has for a name. -/
def hit? (b : Build) (container : Option Element) (name : String) : Place → Option Element
  | .childId => container.bind fun c => (b.store.namedChildren c).find? (b.store.id? · == some name)
  | .childHeader =>
    container.bind fun c => (b.store.namedChildren c).find? (b.store.header? · == some name)
  | .shelf shelf => (b.symbols.onShelf? b.alive name shelf).map Node.element

/-- The element to which a key can be bound from inside a container. -/
def binding? (b : Build) (container : Option Element) (key : Key) : Option Element :=
  (b.find? container key).filter fun x => !b.store.isPending x

variable {b : Build} {container : Option Element} {e : ExpressionId} {key other : Key} {x : Element}
  {name : String}

/-! ## The first place that has anything -/

theorem findSome?_map_shelf (b : Build) (container : Option Element) (name : String) :
    (Shelf.order.map Place.shelf).findSome? (b.hit? container name) = b.lookup? name := by
  rw [lookup?, SymbolTable.lookup_eq_findSome?, List.findSome?_map, List.map_findSome?]
  rfl

theorem find?_name (b : Build) (container : Option Element) (name : String) :
    b.find? container (.name name) = Place.order.findSome? (b.hit? container name) := by
  rw [Place.order, List.findSome?_append, findSome?_map_shelf]
  cases container <;> simp [find?, childNamed?, hit?, SymbolTable.findSome?_cons_or]

/-! ## Binding changes no hit -/

theorem bindKey_find? (b : Build) (container : Option Element) (e : ExpressionId) (other key : Key) :
    (b.bindKey container e other).find? container key = b.find? container key := by
  have binds := bindKey_binds container e b other
  rcases bindKey_cases container e b other with same | ⟨found, -, -, same⟩
  · rw [same]
  · have children (c : Element) :
        (b.bindKey container e other).store.namedChildren c = b.store.namedChildren c := by
      rw [same]
      cases c <;> rfl
    have named (name : String) : (b.bindKey container e other).lookup? name = b.lookup? name := by
      rw [same]
      rfl
    cases key with
    | position i => simp only [find?, childAt?, children]
    | name name => simp only [find?, childNamed?, children, binds.id, binds.header, named]

theorem bindKey_binding? (b : Build) (container : Option Element) (e : ExpressionId)
    (other key : Key) :
    (b.bindKey container e other).binding? container key = b.binding? container key := by
  have alike := (bindKey_binds container e b other).toAlike
  have pending (x : Element) :
      (b.bindKey container e other).store.isPending x = b.store.isPending x := by
    rw [Bool.eq_iff_iff, ← not_iff_not]
    simp only [Bool.not_eq_true, isPending_eq_false_iff]
    exact ⟨fun calm y reach => calm y (alike.symm.reach reach),
      fun calm y reach => calm y (alike.reach reach)⟩
  simp only [binding?, bindKey_find?, pending]

/-! ## What keys are bound to -/

theorem bindKey_eq (b : Build) (container : Option Element) (e : ExpressionId) (key : Key) :
    b.bindKey container e key = match b.binding? container key with
      | some found =>
        { b with
          store := b.store.updateExpression e fun n => { n with bound := n.bound ++ [(key, found)] } }
      | none => b := by
  unfold bindKey binding?
  cases b.find? container key with
  | none => rfl
  | some found => cases pending : b.store.isPending found <;> simp [Option.filter_some, pending]

theorem lookup_bindKey (inside : e.index < b.store.expressions.size) :
    ((b.bindKey container e other).store.expression e).bound.lookup key =
      ((b.store.expression e).bound.lookup key).or
        (if key = other then b.binding? container key else none) := by
  rw [bindKey_eq]
  cases found : b.binding? container other with
  | none =>
      by_cases same : key = other
      · simp [same, found]
      · simp [same]
  | some x =>
      have bound : ((b.store.updateExpression e fun n =>
          { n with bound := n.bound ++ [(other, x)] }).expression e).bound =
          (b.store.expression e).bound ++ [(other, x)] :=
        congrArg ExpressionNode.bound (Table.get_update_self b.store.expressions _ inside)
      simp only [bound, List.lookup_append, List.lookup_cons, List.lookup_nil]
      by_cases same : key = other
      · simp [same, found]
      · have different : (key == other) = false := by simp [same]
        simp [same, different]

/-- Binding some keys one after another, each is bound as if it were the only one. -/
theorem lookup_foldl_bindKey (container : Option Element) (key : Key) (keys : List Key)
    (inside : e.index < b.store.expressions.size) :
    ((keys.foldl (bindKey container e) b).store.expression e).bound.lookup key =
      ((b.store.expression e).bound.lookup key).or
        (if key ∈ keys then b.binding? container key else none) := by
  induction keys generalizing b with
  | nil => simp
  | cons first rest ih =>
      have inside' : e.index < (b.bindKey container e first).store.expressions.size := by
        rw [bindKey_eq]
        cases b.binding? container first <;> simpa [updateExpression] using inside
      rw [List.foldl_cons, ih inside', lookup_bindKey inside, bindKey_binding?, Option.or_assoc]
      by_cases same : key = first
      · by_cases again : key ∈ rest <;> simp [same, same ▸ again]
      · simp [same]

/-- A name is bound to the element that the first place with one for it has, unless something is
pending under that element: then it is bound to nothing, whatever the later places have. -/
theorem lookup_bindKeys (b : Build) (container : Option Element) (e : ExpressionId) (name : String)
    (unbound : .name name ∈ b.store.unboundKeys e) (x : Element) :
    ((b.bindKeys container e).store.expression e).bound.lookup (.name name) = some x ↔
      ∃ front place back, Place.order = front ++ place :: back ∧
        b.hit? container name place = some x ∧
        (∀ other ∈ front, b.hit? container name other = none) ∧
        ∀ y, Reach b.store x y → isProducer y = false := by
  have free : (b.store.expression e).bound.lookup (.name name) = none := by
    simpa using (List.mem_filter.1 unbound).2
  have bound := lookup_foldl_bindKey container (.name name) (b.store.unboundKeys e)
    (expression_lt_size unbound)
  rw [if_pos unbound, free, Option.none_or] at bound
  rw [bindKeys, bound, binding?, find?_name, Option.filter_eq_some_iff, List.findSome?_eq_some_iff,
    Bool.not_eq_true', isPending_eq_false_iff]
  constructor
  · rintro ⟨⟨front, place, back, split, hit, first⟩, calm⟩
    exact ⟨front, place, back, split, hit, first, calm⟩
  · rintro ⟨front, place, back, split, hit, first, calm⟩
    exact ⟨⟨front, place, back, split, hit, first⟩, calm⟩

/-- A column with a formula under the id of the price, which waits, and a formula over the price and
the tax; a cell outside has the id of the price too, and another has the global header of the tax. -/
def priced : Build where
  store :=
    { cells := ⟨#[{ value := .text "5", id := some "price" }, { value := .text "0.2" }]⟩
      vectors := ⟨#[{ orientation := .vertical, children := [.expression ⟨0⟩, .expression ⟨1⟩] }]⟩
      expressions := ⟨#[
        { template :=
            { source := "[later]"
              expanded := "refs[\"later\"]"
              keys := [.name "later"]
              isRef := true
              ast := .ref (.name "later") }
          declared := { id := some "price" } },
        { template :=
            { source := "[price] + [tax]"
              expanded := "refs[\"price\"] + refs[\"tax\"]"
              keys := [.name "price", .name "tax"]
              isRef := false
              ast := .binary .add (.ref (.name "price")) (.ref (.name "tax")) } }]⟩ }
  symbols :=
    { ids := { localEntries := [("price", some (.cell ⟨0⟩))] }
      headers := { globalEntries := [("tax", some (.cell ⟨1⟩))] } }
  pins := [.vector ⟨0⟩, .cell ⟨0⟩, .cell ⟨1⟩]

/-- The tax is found in the last place of all. -/
theorem lookup_bindKeys_tax :
    .name "tax" ∈ priced.store.unboundKeys ⟨1⟩ ∧
      ((priced.bindKeys (some (.vector ⟨0⟩)) ⟨1⟩).store.expression ⟨1⟩).bound.lookup (.name "tax") =
        some (.cell ⟨1⟩) ∧
      ∃ front place back, Place.order = front ++ place :: back ∧
        priced.hit? (some (.vector ⟨0⟩)) "tax" place = some (.cell ⟨1⟩) ∧
        (∀ other ∈ front, priced.hit? (some (.vector ⟨0⟩)) "tax" other = none) ∧
        ∀ y, Reach priced.store (.cell ⟨1⟩) y → isProducer y = false := by
  have unbound : .name "tax" ∈ priced.store.unboundKeys ⟨1⟩ := by decide +kernel
  have found : ((priced.bindKeys (some (.vector ⟨0⟩)) ⟨1⟩).store.expression ⟨1⟩).bound.lookup
      (.name "tax") = some (.cell ⟨1⟩) := by rfl
  exact ⟨unbound, found, (lookup_bindKeys priced _ ⟨1⟩ "tax" unbound _).1 found⟩

/-- The price is not bound, though the cell with its id is there and nothing is pending under it: the
formula that waits is found before. -/
theorem lookup_bindKeys_price :
    .name "price" ∈ priced.store.unboundKeys ⟨1⟩ ∧
      priced.hit? (some (.vector ⟨0⟩)) "price" (.shelf .localIds) = some (.cell ⟨0⟩) ∧
      priced.alive (.cell ⟨0⟩) = true ∧ priced.store.isPending (.cell ⟨0⟩) = false ∧
      .name "price" ∈ (priced.bindKeys (some (.vector ⟨0⟩)) ⟨1⟩).store.unboundKeys ⟨1⟩ := by
  exact ⟨by decide +kernel, by rfl, by decide +kernel, by decide +kernel, by decide +kernel⟩

end Build

end Spreadsheet
