import Spreadsheet.Proofs.Resolve.Places
import Spreadsheet.Proofs.Resolve.Replaces
import Spreadsheet.Proofs.Tidy.Values

/-!
# Tidy builds

In a tidy build the nodes in use hold what they may hold, what is held from outside is there and in
use, and names are only ever names of what is there.  Naming, dressing and binding leave a build
tidy, and so does evaluating a producer in use, also where it fails.
-/

namespace Spreadsheet

open Store
open Template (Key)

/-! ## The nodes that have a name -/

/-- The nodes that have a name of some kind. -/
def Namespace.nodes (n : Namespace) : List Node :=
  (n.localEntries ++ n.globalEntries).filterMap Prod.snd

/-- The nodes that have a name. -/
def SymbolTable.nodes (t : SymbolTable) : List Node :=
  t.ids.nodes ++ t.headers.nodes

theorem Namespace.mem_nodes {n : Namespace} {m : Node} : m ∈ n.nodes ↔
    m ∈ n.localEntries.filterMap Prod.snd ∨ m ∈ n.globalEntries.filterMap Prod.snd := by
  rw [nodes, List.filterMap_append, List.mem_append]

theorem Namespace.mem_nodes_put {n : Namespace} {key : String} {node : Option Node} {m : Node}
    (h : m ∈ (n.put key node).nodes) : m ∈ n.nodes ∨ m ∈ node := by
  have entry : ∀ {entries : Entries} {name : String},
      m ∈ (entries.put name node).filterMap Prod.snd → m ∈ entries.filterMap Prod.snd ∨ m ∈ node := by
    intro entries name h
    obtain ⟨entry, hentry, hm⟩ := List.mem_filterMap.1 h
    rcases List.mem_cons.1 hentry with rfl | old
    · exact .inr hm
    · exact .inl (List.mem_filterMap.2 ⟨entry, (List.mem_filter.1 old).1, hm⟩)
  rw [mem_nodes]
  rw [put] at h
  split at h
  all_goals rcases mem_nodes.1 h with h | h
  · exact .inl (.inl h)
  · exact (entry h).imp .inr id
  · exact (entry h).imp .inl id
  · exact .inl (.inr h)

theorem Entries.of_find? {alive : Node → Bool} {entries : Entries} {name : String} {n : Node}
    (h : entries.find? alive name = some n) :
    n ∈ entries.filterMap Prod.snd ∧ alive n = true := by
  obtain ⟨found, used⟩ := Option.filter_eq_some_iff.1 h
  obtain ⟨l₁, l₂, rfl, -⟩ := List.lookup_eq_some_iff.1 (Option.join_eq_some_iff.1 found)
  exact ⟨List.mem_filterMap.2 ⟨(name, some n), by simp, rfl⟩, used⟩

theorem SymbolTable.of_lookup {t : SymbolTable} {alive : Node → Bool} {key : String} {n : Node}
    (h : t.lookup alive key = some n) : n ∈ t.nodes ∧ alive n = true := by
  simp only [nodes, List.mem_append, Namespace.mem_nodes]
  unfold lookup at h
  split at h
  all_goals simp only [Option.orElse_eq_orElse, Option.orElse_eq_or, Option.or_eq_some_iff] at h
  · rcases h with h | ⟨-, h⟩
    all_goals obtain ⟨named, used⟩ := Entries.of_find? h
    · exact ⟨.inl (.inr named), used⟩
    · exact ⟨.inr (.inr named), used⟩
  · rcases h with h | ⟨-, h | ⟨-, h | ⟨-, h⟩⟩⟩
    all_goals obtain ⟨named, used⟩ := Entries.of_find? h
    · exact ⟨.inl (.inl named), used⟩
    · exact ⟨.inr (.inl named), used⟩
    · exact ⟨.inl (.inr named), used⟩
    · exact ⟨.inr (.inr named), used⟩

/-! ## Tidy builds -/

namespace Build

variable {b t u : Build} {e : Element}

/-- Whether a node is in use. -/
def Alive (b : Build) (n : Node) : Prop :=
  b.alive n = true

/-- Whether the nodes in use hold what they may hold, whatever is held from outside is at hand, and
names are names of what is there. -/
structure Tidy (b : Build) : Prop where
  store : b.store.Tidy b.Alive
  pins : ∀ n ∈ b.pins, b.store.AtHand b.Alive n
  names : ∀ n ∈ b.symbols.nodes, b.store.Has n

theorem alive_eq (same : t.use = b.use) : t.Alive = b.Alive :=
  funext fun n => congrArg (· = true) (alive_congr same n)

/-- A change that lets no node go out of use. -/
theorem Tidy.later (h : b.Tidy) (same : t.use = b.use) (store : t.store.Tidy b.Alive)
    (has : ∀ n, b.store.Has n → t.store.Has n)
    (names : ∀ n ∈ t.symbols.nodes, n ∈ b.symbols.nodes ∨ t.store.Has n) : t.Tidy where
  store := alive_eq same ▸ store
  pins n hn := by
    rw [(Prod.mk.inj same).2] at hn
    rw [alive_eq same]
    exact (h.pins n hn).imp (has n) id
  names n hn := (names n hn).elim (fun old => has n (h.names n old)) id

/-- A change of nothing but the store that lets no node go out of use. -/
theorem Tidy.restock (h : b.Tidy) {s : Store} (store : s.Tidy b.Alive)
    (has : ∀ n, b.store.Has n → s.Has n) : Tidy { b with store := s } :=
  h.later rfl store has fun _ => .inl

/-- Whether two builds differ at most in what has no bearing on what nodes hold and may hold, and in
names of an element. -/
structure Decorates (e : Element) (b t : Build) : Prop where
  dresses : Dresses b.store t.store
  use : t.use = b.use
  names : ∀ n ∈ t.symbols.nodes, n ∈ b.symbols.nodes ∨ n ∈ e.node?

theorem Decorates.refl (e : Element) (b : Build) : Decorates e b b :=
  ⟨.refl _, rfl, fun _ => .inl⟩

theorem Decorates.dress (h : Decorates e b t) {f : Store → Store}
    (dresses : Dresses t.store (f t.store)) : Decorates e b { t with store := f t.store } :=
  ⟨h.dresses.trans dresses, h.use, h.names⟩

theorem Tidy.decorate (h : b.Tidy) (decorates : Decorates e b t) (there : e.Meets b.store.Has) :
    t.Tidy := by
  have has : ∀ n, b.store.Has n → t.store.Has n := fun n => (decorates.dresses.has n).2
  refine h.later decorates.use (h.store.dress decorates.dresses) has fun n hn => ?_
  exact (decorates.names n hn).imp id fun named => has n (there n named)

/-! ## Binding -/

theorem Tidy.of_find? (h : b.Tidy) {container : Option Element}
    (used : ∀ c ∈ container, c.Meets b.Alive) {key : Key} {found : Element}
    (here : b.find? container key = some found) : found.Meets (b.store.AtHand b.Alive) := by
  have inside : ∀ c ∈ container, ∀ child ∈ b.store.children c,
      child.Meets (b.store.AtHand b.Alive) := fun c hc _ => h.store.child (used c hc)
  cases key with
  | position i =>
      obtain ⟨c, hc, at_⟩ := Option.bind_eq_some_iff.1 here
      exact inside c hc _ (mem_children_of_namedChildren (List.mem_of_getElem? at_))
  | name name =>
      simp only [find?, Option.orElse_eq_orElse, Option.orElse_eq_or, Option.or_eq_some_iff] at here
      rcases here with here | ⟨-, here⟩
      · obtain ⟨c, hc, named⟩ := Option.bind_eq_some_iff.1 here
        exact inside c hc _ (mem_children_of_childNamed? named)
      · obtain ⟨n, found, rfl⟩ := Option.map_eq_some_iff.1 here
        obtain ⟨named, alive⟩ := SymbolTable.of_lookup found
        intro m hm
        rw [Node.node?_element, Option.mem_some_iff] at hm
        exact hm ▸ ⟨h.names n named, alive⟩

end Build

theorem Store.Tidy.bind {use : Node → Prop} {s : Store} (h : s.Tidy use) (e : ExpressionId)
    (key : Key) {found : Element} (here : found.Meets (s.AtHand use)) :
    (s.updateExpression e fun n => { n with bound := n.bound ++ [(key, found)] }).Tidy use := by
  have alike := (binds_updateExpression s e [(key, found)]).toAlike
  have has : ∀ n, (s.updateExpression e fun n =>
      { n with bound := n.bound ++ [(key, found)] }).Has n ↔ s.Has n := by
    intro n
    cases n <;> simp [Has, updateExpression]
  have axes : ∀ e' : Element, (s.updateExpression e fun n =>
      { n with bound := n.bound ++ [(key, found)] }).orientation? e' = s.orientation? e' := by
    intro e'
    cases e' <;> rfl
  refine ⟨⟨alike.wellFormed h.wf, fun n outside => h.unborn n fun old => outside ((has n).2 old),
    fun n used m hm => ?_⟩, fun e' used child below => ?_, fun v used => h.headed v used⟩
  · suffices s.AtHand use m from this.imp (has m).2 id
    cases n with
    | expression x =>
        rcases expression_updateExpression_cases s e x
          (fun n => { n with bound := n.bound ++ [(key, found)] }) with same | same
        · rw [Store.holds, same] at hm
          exact h.holds (.expression x) used m hm
        · rw [Store.holds, same, List.filterMap_append, List.mem_append] at hm
          rcases hm with hm | hm
          · exact h.holds (.expression x) used m hm
          · obtain ⟨entry, hentry, hm⟩ := List.mem_filterMap.1 hm
            obtain rfl := List.mem_singleton.1 hentry
            exact here m hm
    | _ => exact h.holds _ used m hm
  · exact (h.takes e' used child (alike.children e' ▸ below)).congr (axes e') (axes child)

namespace Build

variable {b : Build}

theorem Tidy.bindKey (h : b.Tidy) {container : Option Element}
    (used : ∀ c ∈ container, c.Meets b.Alive) (e : ExpressionId) (key : Key) :
    (b.bindKey container e key).Tidy := by
  rcases bindKey_cases container e b key with same | ⟨found, here, -, same⟩
  · rwa [same]
  · rw [same]
    refine h.restock (h.store.bind e key (h.of_find? used here)) fun n there => ?_
    cases n with
    | expression x => simpa [Has, updateExpression] using there
    | _ => exact there

theorem use_bindKey (b : Build) (container : Option Element) (e : ExpressionId) (key : Key) :
    (b.bindKey container e key).use = b.use := by
  rcases bindKey_cases container e b key with same | ⟨_, -, -, same⟩
  · rw [same]
  · rw [same]
    rfl

/-- Trying the keys of an expression. -/
theorem Tidy.bindKeys (h : b.Tidy) {container : Option Element}
    (used : ∀ c ∈ container, c.Meets b.Alive) (e : ExpressionId) :
    (b.bindKeys container e).Tidy ∧ (b.bindKeys container e).use = b.use := by
  refine List.foldlRecOn (motive := fun t : Build => t.Tidy ∧ t.use = b.use) _ _ ⟨h, rfl⟩ ?_
  rintro t ⟨tidy, same⟩ key -
  exact ⟨tidy.bindKey (alive_eq same ▸ used) e key, (use_bindKey t container e key).trans same⟩

/-- Trying the keys of the operands of a call. -/
theorem Tidy.bindArguments (h : b.Tidy) {container : Option Element}
    (used : ∀ c ∈ container, c.Meets b.Alive) (args : List Argument) :
    (args.foldl (bindArgument container) b).Tidy ∧
      (args.foldl (bindArgument container) b).use = b.use := by
  refine List.foldlRecOn (motive := fun t : Build => t.Tidy ∧ t.use = b.use) _ _ ⟨h, rfl⟩ ?_
  rintro t ⟨tidy, same⟩ arg -
  cases arg with
  | expression e => exact (tidy.bindKeys (alive_eq same ▸ used) e).imp id (·.trans same)
  | _ => exact ⟨tidy, same⟩

end Build

/-! ## Dressing -/

namespace BuildM

open Build

variable {e : Element} {b₀ b : Build}

theorem registerId_decorates (key : String) (e : Element) :
    Upholds (Decorates e b₀) (registerId key e) := by
  intro t h
  unfold registerId
  split
  · refine ⟨h.dresses, h.use, fun n hn => ?_⟩
    rcases List.mem_append.1 hn with hn | hn
    · rcases Namespace.mem_nodes_put hn with old | new
      · exact h.names n (List.mem_append_left _ old)
      · exact .inr new
    · exact h.names n (List.mem_append_right _ hn)
  · exact h

theorem registerHeader_decorates (key : String) (e : Element) :
    Upholds (Decorates e b₀) (registerHeader key e) := by
  intro t h
  unfold registerHeader
  split
  · refine ⟨h.dresses, h.use, fun n hn => ?_⟩
    rcases List.mem_append.1 hn with hn | hn
    · exact h.names n (List.mem_append_left _ hn)
    · rcases Namespace.mem_nodes_put hn with old | new
      · exact h.names n (List.mem_append_right _ old)
      · exact .inr new
  · exact h

theorem changeStore_decorates {f : Store → Store} (dresses : ∀ s, Dresses s (f s)) :
    Upholds (Decorates e b₀) (changeStore f) :=
  fun t h => h.dress (dresses t.store)

theorem setId_decorates (e : Element) (id : String) : Upholds (Decorates e b₀) (setId e id) := by
  refine (registerId_decorates id e).bind fun _ => changeStore_decorates fun s => ?_
  cases e with
  | cell c => exact dresses_updateCell _ c (fun _ => rfl) (fun _ => rfl) fun _ merge => merge
  | expression x => exact dresses_updateExpression _ x fun _ => rfl
  | call c => exact dresses_updateCall _ c fun _ => rfl
  | _ => exact dresses_updateAttributes _ _ _

theorem setHeader_decorates (e : Element) (header : String) :
    Upholds (Decorates e b₀) (setHeader e header) := by
  refine (registerHeader_decorates header e).bind fun _ => changeStore_decorates fun s => ?_
  cases e with
  | cell c => exact dresses_updateCell _ c (fun _ => rfl) (fun _ => rfl) fun _ => id
  | vector v => exact dresses_updateVector _ v (fun _ => rfl) (fun _ => rfl) fun _ => rfl
  | expression x => exact dresses_updateExpression _ x fun _ => rfl
  | call c => exact dresses_updateCall _ c fun _ => rfl
  | _ => exact .refl _

theorem dresses_inheritStyles (d : Declared) (e : Element) (s : Store) :
    Dresses s (s.inheritStyles d e) := by
  unfold inheritStyles
  split
  · exact dresses_updateCell s _ (fun _ => rfl) (fun _ => rfl) fun _ => id
  · exact dresses_updateAttributes s e _

theorem applyDeclared_decorates (d : Declared) (e : Element) :
    Upholds (Decorates e b₀) (applyDeclared d e) :=
  applyDeclared_upholds (setId_decorates e) (fun id => registerId_decorates id e)
    (setHeader_decorates e) (fun header => registerHeader_decorates header e)
    (changeStore_decorates (dresses_inheritStyles d e))

end BuildM

end Spreadsheet
