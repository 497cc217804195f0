import Spreadsheet.Build
import Spreadsheet.Proofs.Monad
import Spreadsheet.Proofs.Store.Forest

/-!
# What the symbol table remembers

The symbol table as the record of what was done to it.  In each of its four maps a name stands for
the element that was last registered under it there, until that is cleared away, whatever becomes of
the elements meanwhile; and a key finds the first of the elements for which it stands that is still in
use.
-/

namespace Spreadsheet

open Store

/-! ## The maps of the table -/

/-- The maps of the symbol table, each for one kind of name and for keys with or without the global
marker. -/
inductive Shelf where
  | localIds
  | localHeaders
  | globalIds
  | globalHeaders
deriving DecidableEq

namespace Shelf

/-- The maps in the order in which a key is looked for. -/
def order : List Shelf :=
  [.localIds, .localHeaders, .globalIds, .globalHeaders]

/-- Whether a map holds local names. -/
def isLocal : Shelf → Bool
  | .localIds | .localHeaders => true
  | .globalIds | .globalHeaders => false

/-- The name under which a key is looked for in a map: without the global marker, which keeps it from
the local names. -/
def nameOf? (key : String) (shelf : Shelf) : Option String :=
  match globalName? key with
  | some name => if shelf.isLocal then none else some name
  | none => some key

/-- The map, and the name in it, for an id. -/
def ofId (key : String) : Shelf × String :=
  match globalName? key with
  | some name => (.globalIds, name)
  | none => (.localIds, key)

/-- The map, and the name in it, for a header. -/
def ofHeader (key : String) : Shelf × String :=
  match globalName? key with
  | some name => (.globalHeaders, name)
  | none => (.localHeaders, key)

end Shelf

namespace Entries

variable {entries : Entries} {alive : Node → Bool} {name other : String} {node : Option Node}

theorem mem_put {value : Option Node} : (other, node) ∈ entries.put name value ↔
    other = name ∧ node = value ∨ other ≠ name ∧ (other, node) ∈ entries := by
  by_cases same : other = name <;> simp [put, same]

theorem lookup_eq_some_of_mem (unique : ∀ value, (name, value) ∈ entries → value = node)
    (h : (name, node) ∈ entries) : entries.lookup name = some node := by
  cases found : entries.lookup name with
  | none => exact absurd rfl (bne_iff_ne.1 (List.lookup_eq_none_iff.1 found _ h))
  | some value =>
      obtain ⟨front, back, split, -⟩ := List.lookup_eq_some_iff.1 found
      rw [unique value (by simp [split])]

theorem mem_of_lookup (h : entries.lookup name = some node) : (name, node) ∈ entries := by
  obtain ⟨front, back, rfl, -⟩ := List.lookup_eq_some_iff.1 h
  simp

end Entries

namespace SymbolTable

variable {t : SymbolTable} {alive : Node → Bool} {key name : String} {node : Option Node}

/-- The entries of a map. -/
def entries (t : SymbolTable) : Shelf → Entries
  | .localIds => t.ids.localEntries
  | .localHeaders => t.headers.localEntries
  | .globalIds => t.ids.globalEntries
  | .globalHeaders => t.headers.globalEntries

/-- What a key finds in a map. -/
def onShelf? (t : SymbolTable) (alive : Node → Bool) (key : String) (shelf : Shelf) : Option Node :=
  (shelf.nameOf? key).bind ((t.entries shelf).find? alive)

theorem findSome?_cons_or {α β : Type} (f : α → Option β) (a : α) (l : List α) :
    (a :: l).findSome? f = (f a).or (l.findSome? f) := by
  rw [List.findSome?_cons]
  cases f a <;> rfl

/-- A key finds what the first map has for it that has anything. -/
theorem lookup_eq_findSome? (t : SymbolTable) (alive : Node → Bool) (key : String) :
    t.lookup alive key = Shelf.order.findSome? (t.onShelf? alive key) := by
  unfold lookup
  cases marked : globalName? key with
  | some name =>
      simp [Shelf.order, findSome?_cons_or, onShelf?, Shelf.nameOf?, marked, Shelf.isLocal, entries]
  | none => simp [Shelf.order, findSome?_cons_or, onShelf?, Shelf.nameOf?, marked, entries]

/-- Put an entry into a map, under the name in it. -/
def put (t : SymbolTable) (node : Option Node) : Shelf × String → SymbolTable
  | (.localIds, name) => { t with ids.localEntries := t.ids.localEntries.put name node }
  | (.localHeaders, name) => { t with headers.localEntries := t.headers.localEntries.put name node }
  | (.globalIds, name) => { t with ids.globalEntries := t.ids.globalEntries.put name node }
  | (.globalHeaders, name) => { t with headers.globalEntries := t.headers.globalEntries.put name node }

theorem mem_entries_put {value : Option Node} {place : Shelf × String} {shelf : Shelf} :
    (name, node) ∈ (t.put value place).entries shelf ↔
      (shelf, name) = place ∧ node = value ∨
        (shelf, name) ≠ place ∧ (name, node) ∈ t.entries shelf := by
  obtain ⟨on, under⟩ := place
  cases on <;> cases shelf <;> simp [put, entries, Entries.mem_put]

end SymbolTable

/-! ## What is done to the table -/

namespace Build

/-- What is done to the symbol table, or to the elements that it names. -/
inductive Action where
  | registerId (key : String) (e : Element)
  | registerHeader (key : String) (e : Element)
  | clearLocal
  | clearAll
  | clearScope (root : Element)
  /-- Make or change elements. -/
  | edit (store : Store)
  /-- Hold some nodes from outside, and nothing else. -/
  | hold (nodes : List Node)

variable {b b₀ : Build} {a later : Action} {actions : List Action} {shelf : Shelf} {key name : String}
  {e : Element} {node : Option Node}

/-- Whether an element is a node in use. -/
def Finds (b : Build) (e : Element) : Prop :=
  ∃ n, e.node? = some n ∧ b.alive n = true

namespace Action

/-- Do what an action does. -/
def perform : Action → BuildM Unit
  | .registerId key e => BuildM.registerId key e
  | .registerHeader key e => BuildM.registerHeader key e
  | .clearLocal => modify Build.clearLocal
  | .clearAll => modify Build.clearAll
  | .clearScope root => modify fun b => b.clearScope root
  | .edit store => BuildM.changeStore fun _ => store
  | .hold nodes => modify fun b => { b with pins := nodes }.sweep

/-- The element that an action registers, with the map and the name in it; a key that no template can
name is not registered. -/
def registered? : Action → Option ((Shelf × String) × Element)
  | .registerId key e => if isValidKey key then some (Shelf.ofId key, e) else none
  | .registerHeader key e => if isValidKey key then some (Shelf.ofHeader key, e) else none
  | _ => none

/-- Whether an action takes an element out of a map. -/
def Removes (b : Build) (shelf : Shelf) (e : Element) : Action → Prop
  | .clearAll => True
  | .clearLocal => shelf.isLocal = true
  | .clearScope root => shelf.isLocal = true ∧ (¬b.Finds e ∨ Reach b.store root e)
  | _ => False

end Action

/-- The build after an action, whether or not it succeeds. -/
def after (b : Build) (a : Action) : Build :=
  (a.perform b : Except SheetError Unit × Build).2

/-- The build after some actions, one after another. -/
def afterAll (b : Build) (actions : List Action) : Build :=
  actions.foldl after b

/-- Whether an element is the last one that some actions register under a name in a map, and no later
one of them takes it out. -/
def Recorded (b : Build) (actions : List Action) (shelf : Shelf) (name : String) (e : Element) : Prop :=
  ∃ before a rest, actions = before ++ a :: rest ∧ a.registered? = some ((shelf, name), e) ∧
    ∀ between later more, rest = between ++ later :: more →
      (∀ other, later.registered? ≠ some ((shelf, name), other)) ∧
        ¬later.Removes (b.afterAll (before ++ a :: between)) shelf e

/-! ## One action more -/

theorem afterAll_append (b : Build) (front back : List Action) :
    b.afterAll (front ++ back) = (b.afterAll front).afterAll back :=
  List.foldl_append

theorem not_recorded_nil : ¬b₀.Recorded [] shelf name e := by
  rintro ⟨before, a, rest, split, -⟩
  simp at split

theorem recorded_concat : b₀.Recorded (actions ++ [a]) shelf name e ↔
    a.registered? = some ((shelf, name), e) ∨ b₀.Recorded actions shelf name e ∧
      (∀ other, a.registered? ≠ some ((shelf, name), other)) ∧
        ¬a.Removes (b₀.afterAll actions) shelf e := by
  constructor
  · rintro ⟨before, first, rest, split, registered, kept⟩
    rcases List.eq_nil_or_concat rest with rfl | ⟨rest, last, rfl⟩
    · obtain ⟨-, same⟩ := List.append_inj' split rfl
      cases same
      exact .inl registered
    · rw [List.concat_eq_append, ← List.cons_append, ← List.append_assoc] at split
      obtain ⟨rfl, same⟩ := List.append_inj' split rfl
      cases same
      rw [List.concat_eq_append] at kept
      refine .inr ⟨⟨before, first, rest, rfl, registered, ?_⟩, kept rest a [] rfl⟩
      rintro between later more rfl
      exact kept between later (more ++ [a]) (by simp)
  · rintro (registered | ⟨⟨before, first, rest, rfl, registered, kept⟩, untouched⟩)
    · exact ⟨actions, a, [], rfl, registered, by simp⟩
    · refine ⟨before, first, rest ++ [a], by simp, registered, fun between later more split => ?_⟩
      rcases List.eq_nil_or_concat more with rfl | ⟨more, last, rfl⟩
      · obtain ⟨rfl, same⟩ := List.append_inj' split rfl
        cases same
        exact untouched
      · rw [List.concat_eq_append, ← List.cons_append, ← List.append_assoc] at split
        obtain ⟨rfl, -⟩ := List.append_inj' split rfl
        exact kept between later more rfl

/-- Only one element is recorded under a name in a map. -/
theorem Recorded.unique {x y : Element} (hx : b₀.Recorded actions shelf name x)
    (hy : b₀.Recorded actions shelf name y) : x = y := by
  induction actions using List.reverseRecOn with
  | nil => exact absurd hx not_recorded_nil
  | append_singleton actions a ih =>
      rcases recorded_concat.1 hx with first | ⟨hx, others, -⟩
      · rcases recorded_concat.1 hy with second | ⟨-, others, -⟩
        · rw [first] at second
          cases second
          rfl
        · exact absurd first (others x)
      · rcases recorded_concat.1 hy with second | ⟨hy, -, -⟩
        · exact absurd second (others y)
        · exact ih hx hy

/-! ## The entries of a run -/

theorem symbols_after_of_registered {place : Shelf × String}
    (h : a.registered? = some (place, e)) : (b.after a).symbols = b.symbols.put e.node? place := by
  have ids (key : String) : { b.symbols with ids := b.symbols.ids.put key e.node? } =
      b.symbols.put e.node? (Shelf.ofId key) := by
    unfold Shelf.ofId Namespace.put
    cases globalName? key <;> rfl
  have headers (key : String) : { b.symbols with headers := b.symbols.headers.put key e.node? } =
      b.symbols.put e.node? (Shelf.ofHeader key) := by
    unfold Shelf.ofHeader Namespace.put
    cases globalName? key <;> rfl
  cases a with
  | registerId key x =>
      by_cases valid : isValidKey key = true
      · rw [Action.registered?, if_pos valid] at h
        cases h
        rw [← ids, after, Action.perform, BuildM.registerId, if_pos valid]
        rfl
      · rw [Action.registered?, if_neg valid] at h
        cases h
  | registerHeader key x =>
      by_cases valid : isValidKey key = true
      · rw [Action.registered?, if_pos valid] at h
        cases h
        rw [← headers, after, Action.perform, BuildM.registerHeader, if_pos valid]
        rfl
      · rw [Action.registered?, if_neg valid] at h
        cases h
  | _ => cases h

theorem registerId_of_not_valid (b : Build) (e : Element) (h : isValidKey key = false) :
    (BuildM.registerId key e b : Except SheetError Unit × Build) = (.error (.invalidId key), b) := by
  rw [BuildM.registerId, if_neg (by simp [h])]
  rfl

theorem registerHeader_of_not_valid (b : Build) (e : Element) (h : isValidKey key = false) :
    (BuildM.registerHeader key e b : Except SheetError Unit × Build) = (.ok (), b) := by
  rw [BuildM.registerHeader, if_neg (by simp [h])]
  rfl

theorem element_eq_of_node? {x : Element} {n : Node} (hx : x.node? = some n) (he : e.node? = some n) :
    x = e :=
  (element_of_node? hx).symm.trans (element_of_node? he)

/-- What is taken out of a map by a clearing depends on the node alone. -/
theorem removes_congr {x : Element} (same : x.node? = e.node?) :
    a.Removes b shelf x ↔ a.Removes b shelf e := by
  cases node : e.node? with
  | some n => rw [element_eq_of_node? (same.trans node) node]
  | none =>
      have lost : ¬b.Finds e := by
        rintro ⟨n, found, -⟩
        rw [node] at found
        cases found
      have lost' : ¬b.Finds x := by
        rintro ⟨n, found, -⟩
        rw [same, node] at found
        cases found
      cases a <;> simp [Action.Removes, lost, lost']

theorem mem_scope {s : Store} {root : Element} {n : Node} :
    n ∈ (s.subtree root).filterMap Element.node? ↔ Reach s root n.element := by
  rw [List.mem_filterMap]
  constructor
  · rintro ⟨x, hx, node⟩
    rw [element_of_node? node]
    exact mem_subtree.1 hx
  · intro reach
    exact ⟨n.element, mem_subtree.2 reach, n.node?_element⟩

theorem mem_outside {entries : Entries} {root : Element} :
    (name, node) ∈ entries.outside b.alive ((b.store.subtree root).filterMap Element.node?) ↔
      (name, node) ∈ entries ∧
        ∃ n, node = some n ∧ b.alive n = true ∧ ¬Reach b.store root n.element := by
  simp only [Entries.outside, List.mem_filter, Option.any_eq_true, Bool.and_eq_true,
    Bool.not_eq_true', List.contains_eq_mem, decide_eq_false_iff_not, mem_scope]

/-- Clearing a scope takes out the local entries that lead to nothing in use, or into the tree as it
is, and no others. -/
theorem mem_entries_clearScope {root : Element} :
    (name, node) ∈ (b.after (.clearScope root)).symbols.entries shelf ↔
      (name, node) ∈ b.symbols.entries shelf ∧ (shelf.isLocal = true →
        ∃ n, node = some n ∧ b.alive n = true ∧ ¬Reach b.store root n.element) := by
  have cleared : (b.after (.clearScope root)).symbols = b.symbols.clearScope b.alive
      ((b.store.subtree root).filterMap Element.node?) := rfl
  rw [cleared]
  cases shelf <;>
    simp [SymbolTable.entries, SymbolTable.clearScope, Shelf.isLocal, mem_outside]

theorem exists_node? (node : Option Node) : ∃ e : Element, e.node? = node :=
  match node with
  | some n => ⟨n.element, n.node?_element⟩
  | none => ⟨.gap default, rfl⟩

/-- What clearing a scope leaves, in terms of elements. -/
theorem spares_clearScope {root : Element} :
    (∀ e, e.node? = node → ¬(Action.clearScope root).Removes b shelf e) ↔
      (shelf.isLocal = true →
        ∃ n, node = some n ∧ b.alive n = true ∧ ¬Reach b.store root n.element) := by
  constructor
  · intro spares isLocal
    obtain ⟨e, he⟩ := exists_node? node
    have kept := spares e he
    simp only [Action.Removes, isLocal, true_and, not_or, not_not] at kept
    obtain ⟨⟨n, found, used⟩, apart⟩ := kept
    rw [← element_of_node? found] at apart
    exact ⟨n, he.symm.trans found, used, apart⟩
  · rintro kept e rfl ⟨isLocal, gone⟩
    obtain ⟨n, found, used, apart⟩ := kept isLocal
    rcases gone with lost | inside
    · exact lost ⟨n, found, used⟩
    · rw [element_of_node? found] at apart
      exact apart inside

theorem mem_entries_after : (name, node) ∈ (b.after a).symbols.entries shelf ↔
    (∃ e, a.registered? = some ((shelf, name), e) ∧ e.node? = node) ∨
      (name, node) ∈ b.symbols.entries shelf ∧
        (∀ other, a.registered? ≠ some ((shelf, name), other)) ∧
          ∀ e, e.node? = node → ¬a.Removes b shelf e := by
  cases registered : a.registered? with
  | some entry =>
      obtain ⟨place, x⟩ := entry
      have spares : ∀ e, ¬a.Removes b shelf e := by
        intro e removes
        cases a <;> first | exact removes | cases registered
      rw [symbols_after_of_registered registered, SymbolTable.mem_entries_put]
      by_cases here : (shelf, name) = place
      · subst here
        simp [spares, eq_comm]
      · have elsewhere : place ≠ (shelf, name) := Ne.symm here
        simp [spares, here, elsewhere]
  | none =>
      cases a with
      | registerId key x =>
          have invalid : isValidKey key = false := by simpa [Action.registered?] using registered
          rw [after, Action.perform, registerId_of_not_valid b x invalid]
          simp [Action.Removes]
      | registerHeader key x =>
          have invalid : isValidKey key = false := by simpa [Action.registered?] using registered
          rw [after, Action.perform, registerHeader_of_not_valid b x invalid]
          simp [Action.Removes]
      | clearLocal =>
          have cleared : (b.after .clearLocal).symbols = b.symbols.clearLocal := rfl
          obtain ⟨e, he⟩ := exists_node? node
          rw [cleared]
          cases shelf <;>
            simp [SymbolTable.entries, SymbolTable.clearLocal, Action.Removes, Shelf.isLocal]
          all_goals exact fun _ => ⟨e, he⟩
      | clearAll =>
          have cleared : (b.after .clearAll).symbols = {} := rfl
          obtain ⟨e, he⟩ := exists_node? node
          rw [cleared]
          cases shelf <;> simp [SymbolTable.entries, Action.Removes]
          all_goals exact fun _ => ⟨e, he⟩
      | clearScope root =>
          rw [mem_entries_clearScope, spares_clearScope]
          simp
      | edit store =>
          have same : (b.after (.edit store)).symbols = b.symbols := rfl
          rw [same]
          simp [Action.Removes]
      | hold nodes =>
          have same : (b.after (.hold nodes)).symbols = b.symbols := rfl
          rw [same]
          simp [Action.Removes]

/-- A map has the elements that were last registered there and not taken out since. -/
theorem mem_entries_afterAll (blank : b₀.symbols = {}) :
    (name, node) ∈ (b₀.afterAll actions).symbols.entries shelf ↔
      ∃ e, b₀.Recorded actions shelf name e ∧ e.node? = node := by
  induction actions using List.reverseRecOn generalizing node with
  | nil =>
      have empty : (b₀.afterAll []).symbols.entries shelf = [] := by
        rw [show b₀.afterAll [] = b₀ from rfl, blank]
        cases shelf <;> rfl
      simp [empty, not_recorded_nil]
  | append_singleton actions a ih =>
      have last : b₀.afterAll (actions ++ [a]) = (b₀.afterAll actions).after a :=
        afterAll_append b₀ actions [a]
      rw [last, mem_entries_after, ih]
      simp only [recorded_concat]
      constructor
      · rintro (⟨e, registered, he⟩ | ⟨⟨e, recorded, he⟩, others, spares⟩)
        · exact ⟨e, .inl registered, he⟩
        · exact ⟨e, .inr ⟨recorded, others, spares e he⟩, he⟩
      · rintro ⟨e, registered | ⟨recorded, others, kept⟩, he⟩
        · exact .inl ⟨e, registered, he⟩
        · refine .inr ⟨⟨e, recorded, he⟩, others, fun x hx => ?_⟩
          rwa [removes_congr (hx.trans he.symm)]

/-! ## What a key finds -/

/-- Whether a key leads in a map to an element in use that is recorded there. -/
def Answers (b₀ : Build) (actions : List Action) (key : String) (shelf : Shelf) (e : Element) :
    Prop :=
  ∃ name, shelf.nameOf? key = some name ∧ b₀.Recorded actions shelf name e ∧
    (b₀.afterAll actions).Finds e

theorem onShelf?_eq_some (blank : b₀.symbols = {}) {n : Node} :
    (b₀.afterAll actions).symbols.onShelf? (b₀.afterAll actions).alive key shelf = some n ↔
      b₀.Answers actions key shelf n.element := by
  simp only [SymbolTable.onShelf?, Option.bind_eq_some_iff, Entries.find?, Option.filter_eq_some_iff,
    Option.join_eq_some_iff]
  constructor
  · rintro ⟨name, hname, found, used⟩
    obtain ⟨e, recorded, he⟩ := (mem_entries_afterAll blank).1 (Entries.mem_of_lookup found)
    obtain rfl := element_of_node? he
    exact ⟨name, hname, recorded, n, he, used⟩
  · rintro ⟨name, hname, recorded, m, hm, used⟩
    rw [n.node?_element] at hm
    cases hm
    refine ⟨name, hname, Entries.lookup_eq_some_of_mem (fun value other => ?_) ?_, used⟩
    · obtain ⟨e, recorded', he⟩ := (mem_entries_afterAll blank).1 other
      rw [← he, recorded'.unique recorded, n.node?_element]
    · exact (mem_entries_afterAll blank).2 ⟨_, recorded, n.node?_element⟩

/-- Clearing local names, all of them or those of some trees, leaves the global ones alone. -/
theorem entries_afterAll_clearings {clearings : List Action}
    (h : ∀ a ∈ clearings, a = .clearLocal ∨ ∃ root, a = .clearScope root)
    (isGlobal : shelf.isLocal = false) :
    (b.afterAll clearings).symbols.entries shelf = b.symbols.entries shelf := by
  have step : ∀ b : Build, ∀ a ∈ clearings,
      (b.after a).symbols.entries shelf = b.symbols.entries shelf := by
    intro b a ha
    rcases h a ha with rfl | ⟨root, rfl⟩ <;> cases shelf <;> first | rfl | cases isGlobal
  clear h
  induction clearings generalizing b with
  | nil => rfl
  | cons a rest ih =>
      have later := ih (b := b.after a) fun b x hx => step b x (List.mem_cons_of_mem _ hx)
      exact later.trans (step b a (by simp))

/-- A table that starts empty always answers from the record of what was done to it: a key finds the
element that is recorded in the first of the maps that have one still in use. -/
theorem lookup?_afterAll (b₀ : Build) (blank : b₀.symbols = {}) (actions : List Action) :
    (∀ key e, (b₀.afterAll actions).lookup? key = some e ↔
      ∃ front shelf back, Shelf.order = front ++ shelf :: back ∧ b₀.Answers actions key shelf e ∧
        ∀ other ∈ front, ∀ x, ¬b₀.Answers actions key other x) ∧
    (∀ (b : Build) key e, isValidKey key = false →
      (BuildM.registerId key e b : Except SheetError Unit × Build) = (.error (.invalidId key), b) ∧
        (BuildM.registerHeader key e b : Except SheetError Unit × Build) = (.ok (), b)) ∧
    (∀ (b : Build) root shelf name node,
      (name, node) ∈ (b.after (.clearScope root)).symbols.entries shelf ↔
        (name, node) ∈ b.symbols.entries shelf ∧ (shelf.isLocal = true →
          ∃ n, node = some n ∧ b.alive n = true ∧ ¬Reach b.store root n.element)) ∧
    ∀ (b : Build) clearings, (∀ a ∈ clearings, a = .clearLocal ∨ ∃ root, a = .clearScope root) →
      ∀ shelf, shelf.isLocal = false →
        (b.afterAll clearings).symbols.entries shelf = b.symbols.entries shelf := by
  refine ⟨fun key e => ?_, fun b key e invalid => ?_, fun b root shelf name node => ?_,
    fun b clearings local_ shelf => entries_afterAll_clearings local_⟩
  · have nothing (shelf : Shelf) : (b₀.afterAll actions).symbols.onShelf?
        (b₀.afterAll actions).alive key shelf = none ↔ ∀ x, ¬b₀.Answers actions key shelf x := by
      rw [Option.eq_none_iff_forall_not_mem]
      constructor
      · rintro none x answers
        obtain ⟨-, -, -, n, node, -⟩ := id answers
        obtain rfl := element_of_node? node
        exact none n ((onShelf?_eq_some blank).2 answers)
      · exact fun none n found => none _ ((onShelf?_eq_some blank).1 found)
    simp only [lookup?, SymbolTable.lookup_eq_findSome?, Option.map_eq_some_iff,
      List.findSome?_eq_some_iff, onShelf?_eq_some blank, nothing]
    constructor
    · rintro ⟨n, ⟨front, shelf, back, split, answers, first⟩, rfl⟩
      exact ⟨front, shelf, back, split, answers, first⟩
    · rintro ⟨front, shelf, back, split, answers, first⟩
      obtain ⟨-, -, -, n, node, -⟩ := id answers
      obtain rfl := element_of_node? node
      exact ⟨n, ⟨front, shelf, back, split, answers, first⟩, rfl⟩
  · exact ⟨registerId_of_not_valid b e invalid, registerHeader_of_not_valid b e invalid⟩
  · exact mem_entries_clearScope

/-- Two cells that are held from outside. -/
def twoCells : Build where
  store := { cells := ⟨#[{ value := .text "old" }, { value := .text "new" }]⟩ }
  pins := [.cell ⟨0⟩, .cell ⟨1⟩]

/-- The second cell is registered under an id that the first then takes from it, and under a header;
then the first is held no more. -/
def renamings : List Action :=
  [.registerId "rate" (.cell ⟨1⟩), .registerId "rate" (.cell ⟨0⟩), .registerId "G::tax" (.cell ⟨1⟩),
    .registerHeader "rate" (.cell ⟨1⟩), .hold [.cell ⟨1⟩]]

/-- The id leads to nothing any more, and does not lead to the cell that had it before; the header
does. -/
theorem lookup?_afterAll_renamings :
    (twoCells.afterAll renamings).lookup? "rate" = some (.cell ⟨1⟩) ∧
      (∃ front shelf back, Shelf.order = front ++ shelf :: back ∧
        twoCells.Answers renamings "rate" shelf (.cell ⟨1⟩) ∧
          ∀ other ∈ front, ∀ x, ¬twoCells.Answers renamings "rate" other x) ∧
      (BuildM.registerHeader "rate[0]" (.cell ⟨1⟩) twoCells : Except SheetError Unit × Build) =
        (.ok (), twoCells) ∧
      ((twoCells.afterAll renamings).afterAll [.clearScope (.cell ⟨1⟩), .clearLocal]).symbols.entries
        .globalIds = (twoCells.afterAll renamings).symbols.entries .globalIds := by
  have found : (twoCells.afterAll renamings).lookup? "rate" = some (.cell ⟨1⟩) := by rfl
  obtain ⟨record, invalid, -, others⟩ := lookup?_afterAll twoCells rfl renamings
  refine ⟨found, (record _ _).1 found, (invalid _ _ _ (by decide +kernel)).2, others _ _ ?_ _ rfl⟩
  simp

end Build

end Spreadsheet
