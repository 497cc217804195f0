import Spreadsheet.Proofs.Formula.Compiled
import Spreadsheet.Proofs.Lifetime
import Spreadsheet.Proofs.Resolve.Weight
import Spreadsheet.Proofs.Store.Forest

/-!
# Expressions that use one another

Trees in which every key is the id of one cell or expression of the trees, and what resolving makes
of them: in every build on the way, the name of a key finds a cell or an expression with that id, and
no cell answers to the id of an expression that waits, however indirectly, for itself.
-/

namespace Spreadsheet

open Template (Key)

/-! ## Trees -/

namespace Store

variable {s t u : Store} {roots : List Element}

/-- Whether an element lies in the trees under some roots. -/
def Under (s : Store) (roots : List Element) (e : Element) : Prop :=
  ∃ root ∈ roots, Reach s root e

theorem Under.child {parent child : Element} (h : s.Under roots parent)
    (below : child ∈ s.children parent) : s.Under roots child := by
  obtain ⟨root, hroot, reach⟩ := h
  exact ⟨root, hroot, .child reach below⟩

/-- The expression that an element is. -/
def asExpression? : Element → Option ExpressionId
  | .expression e => some e
  | _ => none

/-- The expressions in the trees under some roots. -/
def expressionsUnder (s : Store) (roots : List Element) : Finset ExpressionId :=
  ((s.pending roots).filterMap asExpression?).toFinset

theorem asExpression?_eq_some {x : Element} {e : ExpressionId} :
    asExpression? x = some e ↔ x = .expression e := by
  cases x <;> simp [asExpression?]

theorem Acyclic.mem_expressionsUnder (h : s.Acyclic) {e : ExpressionId} :
    e ∈ s.expressionsUnder roots ↔ s.Under roots (.expression e) := by
  simp only [expressionsUnder, pending, Under, List.mem_toFinset, List.mem_filterMap,
    asExpression?_eq_some, exists_eq_right, List.mem_flatMap, List.mem_filter, h.mem_subtree,
    isProducer, and_true]

/-- Whether an expression of the trees has the id of another one, or its own, as a key. -/
def Uses (s : Store) (roots : List Element) (e f : ExpressionId) : Prop :=
  s.Under roots (.expression e) ∧ s.Under roots (.expression f) ∧
    ∃ name, .name name ∈ (s.expression e).template.keys ∧ s.id? (.expression f) = some name

/-- Whether everything that an expression uses, directly or through others, ends with expressions
that use no other one. -/
def Grounded (s : Store) (roots : List Element) (e : ExpressionId) : Prop :=
  Acc (fun f e => s.Uses roots e f) e

/-- Whether trees differ at most in that cells stand where producers stood. -/
structure Shrinks (s t : Store) : Prop where
  fewer : ∀ parent child, child ∈ t.children parent →
    child ∈ s.children parent ∨ ∃ c, child = .cell c
  kept : ∀ parent child, child ∈ s.children parent → isProducer child = false →
    child ∈ t.children parent

theorem Shrinks.refl (s : Store) : Shrinks s s where
  fewer _ _ below := .inl below
  kept _ _ below _ := below

theorem Shrinks.trans (first : Shrinks s t) (second : Shrinks t u) : Shrinks s u where
  fewer parent child below := by
    rcases second.fewer parent child below with below | cell
    · exact first.fewer parent child below
    · exact .inr cell
  kept parent child below other :=
    second.kept parent child (first.kept parent child below other) other

theorem Alike.shrinks (h : Alike s t) : Shrinks s t where
  fewer parent _ below := .inl (h.children parent ▸ below)
  kept parent _ below _ := (h.children parent).symm ▸ below

theorem ne_cell_of_isContainer {e : Element} (h : e.isContainer = true) (c : CellId) :
    e ≠ .cell c := by
  rintro rfl
  cases h

theorem Shrinks.reach (h : Shrinks s t) {a x : Element} (reach : Reach t a x)
    (other : ∀ c, x ≠ .cell c) : Reach s a x := by
  induction reach with
  | root => exact .root
  | @child parent child above below ih =>
      have parents := ih (ne_cell_of_isContainer (isContainer_of_child below))
      rcases h.fewer parent child below with old | ⟨c, rfl⟩
      · exact .child parents old
      · exact absurd rfl (other c)

theorem Shrinks.under (h : Shrinks s t) {x : Element} (under : t.Under roots x)
    (other : ∀ c, x ≠ .cell c) : s.Under roots x := by
  obtain ⟨root, hroot, reach⟩ := under
  exact ⟨root, hroot, h.reach reach other⟩

theorem Shrinks.under_later (h : Shrinks s t) {x : Element} (under : s.Under roots x)
    (other : isProducer x = false) : t.Under roots x := by
  obtain ⟨root, hroot, reach⟩ := under
  refine ⟨root, hroot, ?_⟩
  induction reach with
  | root => exact .root
  | @child parent child above below ih =>
      exact .child (ih (not_isProducer_of_isContainer (isContainer_of_child below)))
        (h.kept parent child below other)

theorem isPending_cell (s : Store) (c : CellId) : s.isPending (.cell c) = false := rfl

theorem isPending_expression (s : Store) (e : ExpressionId) : s.isPending (.expression e) = true :=
  rfl

end Store

open Store

/-! ## Builds -/

namespace Build

variable {b₀ b : Build} {roots : List Element}

/-- Whether a build is in order for trees: they are in use, their producers are expressions in
vectors, and nothing in them has a header. -/
structure Orderly (b : Build) (roots : List Element) : Prop where
  wf : b.store.WellFormed
  inStore : ∀ root ∈ roots, b.store.InStore root
  pinned : ∀ root ∈ roots, ∀ n ∈ root.node?, n ∈ b.pins
  alive : ∀ x, b.store.Under roots x → ∀ n ∈ x.node?, b.alive n = true
  /-- Only cells of the store have gone out of use. -/
  existing : ∀ c, b.alive (.cell c) = false → b.store.InStore (.cell c)
  tops : ∀ root ∈ roots, isProducer root = false
  sits : ∀ parent child, b.store.Under roots parent → child ∈ b.store.children parent →
    isProducer child = true → ∃ v e, parent = .vector v ∧ child = .expression e
  /-- Vectors hold no containers. -/
  flat : ∀ v child, b.store.Under roots (.vector v) → child ∈ b.store.children (.vector v) →
    child.isContainer = false
  headers : ∀ x, b.store.Under roots x → b.store.header? x = none

/-- Whether a name is the registered local id of exactly one cell or expression of the trees. -/
structure Owns (b : Build) (roots : List Element) (name : String) (x : Element) : Prop where
  under : b.store.Under roots x
  leaf : x.isContainer = false
  id : b.store.id? x = some name
  only : ∀ y, b.store.Under roots y → y.isContainer = false → b.store.id? y = some name → y = x
  isLocal : globalName? name = none
  registered : b.symbols.ids.localEntries.lookup name = some x.node?

/-- Whether the keys of all expressions of the trees are ids of cells and expressions of the trees. -/
structure Linked (b : Build) (roots : List Element) : Prop extends Orderly b roots where
  /-- Templates index nothing, and the names of functions start with a letter. -/
  templates : ∀ e, b.store.Under roots (.expression e) →
    (∃ text, Template.prepare text = .ok (b.store.expression e).template) ∧
      (b.store.expression e).template.ast.Every Formula.Composes
  ids : ∀ e, b.store.Under roots (.expression e) →
    ∀ id ∈ (b.store.expression e).declared.id, isValidKey id = true
  keys : ∀ e, b.store.Under roots (.expression e) → ∀ key ∈ (b.store.expression e).template.keys,
    ∃ name x, key = .name name ∧ b.Owns roots name x
  /-- A key that is bound already is bound to the cell that has the id. -/
  bound : ∀ e, b.store.Under roots (.expression e) →
    ∀ key x, (b.store.expression e).bound.lookup key = some x →
      ∃ name c, key = .name name ∧ x = .cell c ∧ b.Owns roots name (.cell c)

/-- Whether a name is a key of an expression of the trees. -/
def Asks (b : Build) (roots : List Element) (name : String) : Prop :=
  ∃ e, b.store.Under roots (.expression e) ∧ .name name ∈ (b.store.expression e).template.keys

theorem Linked.exists_owns (h : b.Linked roots) {name : String} (asked : b.Asks roots name) :
    ∃ x, b.Owns roots name x := by
  obtain ⟨e, under, hkey⟩ := asked
  obtain ⟨name', x, same, owns⟩ := h.keys e under _ hkey
  cases same
  exact ⟨x, owns⟩

/-- Whether the expressions with an id are grounded. -/
def Licensed (b : Build) (roots : List Element) (name : String) : Prop :=
  ∀ f, b.store.Under roots (.expression f) → b.store.id? (.expression f) = some name →
    b.store.Grounded roots f

theorem Owns.licensed {name : String} {c : CellId} (h : b.Owns roots name (.cell c)) :
    b.Licensed roots name := by
  intro f under id
  cases h.only (.expression f) under rfl id

/-- What every build keeps on the way from a linked one: the expressions that are left are some of
those at the start, all that are not grounded among them, and names that are asked for find cells
and expressions of the trees. -/
structure Follows (b₀ : Build) (roots : List Element) (b : Build) : Prop
    extends Orderly b roots where
  start : b₀.Linked roots
  template : ∀ e, (b.store.expression e).template = (b₀.store.expression e).template
  ids : ∀ e, b.store.id? (.expression e) = b₀.store.id? (.expression e)
  within : ∀ e, b.store.Under roots (.expression e) → b₀.store.Under roots (.expression e)
  stays : ∀ e, b₀.store.Under roots (.expression e) → ¬b₀.store.Grounded roots e →
    b.store.Under roots (.expression e)
  cells : ∀ c name, b.store.Under roots (.cell c) → b.store.id? (.cell c) = some name →
    b₀.Asks roots name → b₀.Licensed roots name
  entries : ∀ name, b₀.Asks roots name → ∃ x, b.store.Under roots x ∧ x.isContainer = false ∧
    b.store.id? x = some name ∧ b.symbols.ids.localEntries.lookup name = some x.node?
  bound : ∀ e, b.store.Under roots (.expression e) →
    ∀ key x, (b.store.expression e).bound.lookup key = some x →
      ∃ name c, key = .name name ∧ x = .cell c ∧ b₀.Licensed roots name

theorem Linked.follows (h : b.Linked roots) : Follows b roots b where
  toOrderly := h.toOrderly
  start := h
  template _ := rfl
  ids _ := rfl
  within _ under := under
  stays _ under _ := under
  cells c name under id asked := by
    obtain ⟨x, owns⟩ := h.exists_owns asked
    obtain rfl := owns.only _ under rfl id
    exact owns.licensed
  entries name asked := by
    obtain ⟨x, owns⟩ := h.exists_owns asked
    exact ⟨x, owns.under, owns.leaf, owns.id, owns.registered⟩
  bound e under key x found := by
    obtain ⟨name, c, hkey, hx, owns⟩ := h.bound e under key x found
    exact ⟨name, c, hkey, hx, owns.licensed⟩

/-! ## What names find -/

theorem Orderly.isProducer_cases (h : b.Orderly roots) {x : Element} (under : b.store.Under roots x)
    (producer : isProducer x = true) : ∃ e, x = .expression e := by
  obtain ⟨root, hroot, reach⟩ := under
  cases reach with
  | root =>
      rw [h.tops _ hroot] at producer
      cases producer
  | @child parent _ above below =>
      obtain ⟨v, e, -, hx⟩ := h.sits parent x ⟨root, hroot, above⟩ below producer
      exact ⟨e, hx⟩

/-- What has an id and no children is a cell or an expression. -/
theorem Orderly.leaf_cases (h : b.Orderly roots) {x : Element} {name : String}
    (under : b.store.Under roots x) (leaf : x.isContainer = false)
    (id : b.store.id? x = some name) : (∃ c, x = .cell c) ∨ ∃ e, x = .expression e := by
  cases x with
  | cell c => exact .inl ⟨c, rfl⟩
  | expression e => exact .inr ⟨e, rfl⟩
  | gap g => cases id
  | call c => exact .inr (h.isProducer_cases under rfl)
  | _ => cases leaf

theorem Orderly.lookup?_eq (h : b.Orderly roots) {name : String} {x : Element}
    (under : b.store.Under roots x) (isLocal : globalName? name = none) {n : Node}
    (node : x.node? = some n)
    (entry : b.symbols.ids.localEntries.lookup name = some x.node?) : b.lookup? name = some x := by
  have found : b.symbols.ids.localEntries.find? b.alive name = some n := by
    rw [Entries.find?, entry, node]
    exact Option.filter_eq_some_iff.2 ⟨rfl, h.alive x under n node⟩
  simp only [lookup?, SymbolTable.lookup, isLocal, found, Option.orElse_eq_orElse,
    Option.orElse_eq_or, Option.some_or, Option.map_some, element_of_node? node]

theorem Orderly.childNamed?_eq (h : b.Orderly roots) {v : VectorId}
    (hv : b.store.Under roots (.vector v)) {name : String} {x : Element}
    (found : b.store.childNamed? (.vector v) name = some x) :
    b.store.Under roots x ∧ x.isContainer = false ∧ b.store.id? x = some name := by
  have inside : ∀ y ∈ b.store.namedChildren (.vector v), y ∈ b.store.children (.vector v) :=
    fun y hy => List.mem_of_mem_drop hy
  have nameless : (b.store.namedChildren (.vector v)).find?
      (fun y => b.store.header? y == some name) = none := by
    rw [List.find?_eq_none]
    intro y hy
    rw [h.headers y (hv.child (inside y hy))]
    simp
  simp only [childNamed?, nameless, Option.orElse_eq_orElse, Option.orElse_eq_or,
    Option.or_none] at found
  have here := inside x (List.mem_of_find?_eq_some found)
  exact ⟨hv.child here, h.flat v x hv here, by simpa using List.find?_some found⟩

/-- In a vector of the trees, a name that is asked for finds a cell or an expression of the trees
with that id. -/
theorem Follows.find?_name (h : Follows b₀ roots b) {v : VectorId}
    (hv : b.store.Under roots (.vector v)) {name : String} (asked : b₀.Asks roots name) :
    ∃ x, b.find? (some (.vector v)) (.name name) = some x ∧ b.store.Under roots x ∧
      b.store.id? x = some name ∧ ((∃ c, x = .cell c) ∨ ∃ e, x = .expression e) := by
  cases named : b.store.childNamed? (.vector v) name with
  | some x =>
      obtain ⟨under, leaf, id⟩ := h.childNamed?_eq hv named
      refine ⟨x, ?_, under, id, h.leaf_cases under leaf id⟩
      simp [find?, named]
  | none =>
      obtain ⟨x, under, leaf, id, entry⟩ := h.entries name asked
      obtain ⟨y, owns⟩ := h.start.exists_owns asked
      have kind := h.leaf_cases under leaf id
      have node : ∃ n, x.node? = some n := by
        rcases kind with ⟨c, rfl⟩ | ⟨e, rfl⟩ <;> exact ⟨_, rfl⟩
      obtain ⟨n, node⟩ := node
      have found := h.lookup?_eq under owns.isLocal node entry
      refine ⟨x, ?_, under, id, kind⟩
      simp [find?, named, found]

end Build

end Spreadsheet
