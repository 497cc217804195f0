import Spreadsheet.Proofs.Build
import Spreadsheet.Proofs.Resolve.Binding
import Spreadsheet.Proofs.Resolve.Linked
import Spreadsheet.Proofs.Template.References

/-!
# Expressions that are ready

Trying to bind the keys of an expression of linked trees binds all that do not find an expression of
the trees.  Once all keys are bound, the expression is grounded, and evaluating it makes a cell with
its id.
-/

namespace Spreadsheet

open Template (Key Expr)
open Store

namespace Store

variable {s t : Store} {roots : List Element}

theorem Alike.under (h : Alike s t) {x : Element} : t.Under roots x ↔ s.Under roots x := by
  constructor
  · rintro ⟨root, hroot, reach⟩
    exact ⟨root, hroot, h.reach reach⟩
  · rintro ⟨root, hroot, reach⟩
    exact ⟨root, hroot, h.symm.reach reach⟩

end Store

namespace Build

variable {b₀ b : Build} {roots : List Element} {v : VectorId} {e : ExpressionId}

/-! ## Binding -/

theorem Orderly.of_alike (h : b.Orderly roots) {t : Store} (alike : Alike b.store t)
    (header : ∀ x, t.header? x = b.store.header? x) : Orderly { b with store := t } roots where
  wf := alike.wellFormed h.wf
  inStore root hroot := (alike.inStore root).2 (h.inStore root hroot)
  pinned := h.pinned
  alive x under := h.alive x (alike.under.1 under)
  existing c out := (alike.inStore _).2 (h.existing c out)
  tops := h.tops
  sits parent child under below :=
    h.sits parent child (alike.under.1 under) (alike.children parent ▸ below)
  flat v child under below := h.flat v child (alike.under.1 under) (alike.children _ ▸ below)
  headers x under := (header x).trans (h.headers x (alike.under.1 under))

theorem Follows.bind (h : Follows b₀ roots b) (e : ExpressionId) {name : String} (c : CellId)
    (licensed : b₀.Licensed roots name) :
    Follows b₀ roots { b with store := b.store.updateExpression e fun n =>
      { n with bound := n.bound ++ [(.name name, .cell c)] } } := by
  have binds := binds_updateExpression b.store e [(.name name, .cell c)]
  have alike := binds.toAlike
  exact
    { toOrderly := h.toOrderly.of_alike alike binds.header
      start := h.start
      template := fun x => (binds.template x).trans (h.template x)
      ids := fun x => (binds.id _).trans (h.ids x)
      within := fun x under => h.within x (alike.under.1 under)
      stays := fun x under stuck => alike.under.2 (h.stays x under stuck)
      cells := fun d other under id => h.cells d other (alike.under.1 under) id
      entries := by
        intro other asked
        obtain ⟨x, under, leaf, id, entry⟩ := h.entries other asked
        exact ⟨x, alike.under.2 under, leaf, (binds.id x).trans id, entry⟩
      bound := by
        intro x under key y found
        dsimp only at found
        rcases expression_updateExpression_cases b.store e x (fun n =>
          { n with bound := n.bound ++ [(.name name, .cell c)] }) with same | more
        · rw [same] at found
          exact h.bound x (alike.under.1 under) key y found
        · rw [more, List.lookup_append, Option.or_eq_some_iff] at found
          rcases found with old | ⟨-, new⟩
          · exact h.bound x (alike.under.1 under) key y old
          · rw [List.lookup_cons] at new
            split at new
            · rename_i same
              cases new
              exact ⟨name, c, eq_of_beq same, rfl, licensed⟩
            · cases new }

theorem Follows.bindKey (h : Follows b₀ roots b) (hv : b.store.Under roots (.vector v))
    (he : b.store.Under roots (.expression e)) {key : Key}
    (hkey : key ∈ (b.store.expression e).template.keys) :
    Follows b₀ roots (b.bindKey (some (.vector v)) e key) ∧
      (key ∈ (b.bindKey (some (.vector v)) e key).store.unboundKeys e →
        ∃ f, b₀.store.Uses roots e f ∧ b.store.Under roots (.expression f)) := by
  rw [h.template e] at hkey
  have under := h.within e he
  obtain ⟨name, -, rfl, -⟩ := h.start.keys e under key hkey
  have asked : b₀.Asks roots name := ⟨e, under, hkey⟩
  obtain ⟨x, found, hx, id, kind⟩ := h.find?_name hv asked
  rcases kind with ⟨c, rfl⟩ | ⟨f, rfl⟩
  · have step : b.bindKey (some (.vector v)) e (.name name) =
        { b with store := b.store.updateExpression e fun n =>
          { n with bound := n.bound ++ [(.name name, .cell c)] } } := by
      simp [Build.bindKey, found, isPending_cell]
    rw [step]
    refine ⟨h.bind e c (h.cells c name hx id asked), fun still => ?_⟩
    have before := (binds_updateExpression b.store e [(.name name, .cell c)]).unbound e
    exact absurd still (not_mem_unboundKeys_update (before.subset still))
  · have step : b.bindKey (some (.vector v)) e (.name name) = b := by
      simp [Build.bindKey, found, isPending_expression]
    rw [step]
    exact ⟨h, fun _ => ⟨f, ⟨under, h.within f hx, name, hkey, (h.ids f).symm.trans id⟩, hx⟩⟩

theorem Follows.foldl_bindKey (h : Follows b₀ roots b) (hv : b.store.Under roots (.vector v))
    (he : b.store.Under roots (.expression e)) {keys : List Key}
    (hkeys : ∀ key ∈ keys, key ∈ (b.store.expression e).template.keys) :
    Follows b₀ roots (keys.foldl (Build.bindKey (some (.vector v)) e) b) ∧
      ∀ key ∈ keys, key ∈ (keys.foldl (Build.bindKey (some (.vector v)) e) b).store.unboundKeys e →
        ∃ f, b₀.store.Uses roots e f ∧ b.store.Under roots (.expression f) := by
  induction keys generalizing b with
  | nil => exact ⟨h, fun key hkey => absurd hkey (by simp)⟩
  | cons key rest ih =>
      obtain ⟨follows, waits⟩ := h.bindKey hv he (hkeys key (by simp))
      have binds := bindKey_binds (some (.vector v)) e b key
      have alike := binds.toAlike
      obtain ⟨last, others⟩ := ih follows (alike.under.2 hv) (alike.under.2 he) fun other hother =>
        (binds.template e).symm ▸ hkeys other (List.mem_cons_of_mem _ hother)
      refine ⟨last, fun other hother still => ?_⟩
      rcases List.mem_cons.1 hother with rfl | hother
      · exact waits ((foldl_bindKey_binds _ e rest _).unbound e |>.subset still)
      · obtain ⟨f, uses, under⟩ := others other hother still
        exact ⟨f, uses, alike.under.1 under⟩

/-- Trying to bind the keys of an expression in a vector: where some are left, the expression uses one
that is still in the trees. -/
theorem Follows.bindKeys (h : Follows b₀ roots b) (hv : b.store.Under roots (.vector v))
    (he : b.store.Under roots (.expression e)) :
    Follows b₀ roots (b.bindKeys (some (.vector v)) e) ∧
      ((b.bindKeys (some (.vector v)) e).store.unboundKeys e ≠ [] →
        ∃ f, b₀.store.Uses roots e f ∧ b.store.Under roots (.expression f)) := by
  have all : ∀ key ∈ b.store.unboundKeys e, key ∈ (b.store.expression e).template.keys :=
    fun key hkey => List.mem_of_mem_filter hkey
  obtain ⟨follows, waits⟩ := h.foldl_bindKey hv he all
  refine ⟨follows, fun left => ?_⟩
  obtain ⟨key, hkey⟩ := List.exists_mem_of_ne_nil _ left
  exact waits key ((bindKeys_binds _ e b).unbound e |>.subset hkey) hkey

/-! ## Evaluating -/

theorem Follows.bound_of_ready (h : Follows b₀ roots b) (he : b.store.Under roots (.expression e))
    (ready : b.store.unboundKeys e = []) {key : Key}
    (hkey : key ∈ (b.store.expression e).template.keys) :
    ∃ name c, key = .name name ∧ (b.store.expression e).bound.lookup key = some (.cell c) ∧
      b₀.Licensed roots name := by
  cases found : (b.store.expression e).bound.lookup key with
  | some x =>
      obtain ⟨name, c, rfl, rfl, licensed⟩ := h.bound e he key x found
      exact ⟨name, c, rfl, rfl, licensed⟩
  | none =>
      have left : key ∈ b.store.unboundKeys e := List.mem_filter.2 ⟨hkey, by simp [found]⟩
      rw [ready] at left
      cases left

theorem Follows.grounded_of_ready (h : Follows b₀ roots b)
    (he : b.store.Under roots (.expression e)) (ready : b.store.unboundKeys e = []) :
    b₀.store.Grounded roots e := by
  refine Acc.intro e fun f uses => ?_
  obtain ⟨-, under, name, hkey, id⟩ := uses
  rw [← h.template e] at hkey
  obtain ⟨name', -, same, -, licensed⟩ := h.bound_of_ready he ready hkey
  cases same
  exact licensed f under id

/-- Whether a value is a cell or a single formula. -/
def IsSingle (value : Value) : Prop :=
  (∃ c, value = .element (.cell c)) ∨ ∃ f, value = .grid (.scalar f)

theorem Follows.expressionValue (h : Follows b₀ roots b)
    (he : b.store.Under roots (.expression e)) (ready : b.store.unboundKeys e = []) :
    ∃ value, b.store.expressionValue e (some .scalar) = .ok value ∧ IsSingle value := by
  have under := h.within e he
  obtain ⟨⟨text, prepared⟩, composes⟩ := h.start.templates e under
  rw [← h.template e] at prepared composes
  have names : ∀ key ∈ (b.store.expression e).template.keys,
      ∃ c, (b.store.expression e).bound.lookup key = some (.cell c) := fun key hkey => by
    obtain ⟨-, c, -, found, -⟩ := h.bound_of_ready he ready hkey
    exact ⟨c, found⟩
  choose! cellOf bound using names
  have small : ∀ i, Key.position i ∈ (b.store.expression e).template.keys → i ≤ 2 ^ 53 := by
    intro i hkey
    obtain ⟨name, -, same, -⟩ := h.bound_of_ready he ready hkey
    cases same
  obtain ⟨value, evaluated, denotes⟩ := @Formula.eval_compiled cellOf
    ⟨b.store, (b.store.expression e).bound, (b.store.expression e).template.source, some .scalar⟩ rfl
    _ composes (Template.prepare_spelled prepared) fun key hkey =>
      bound key (Template.mem_keys_of_mem_refs prepared small hkey)
  refine ⟨value, evaluated, ?_⟩
  generalize Formula.compiled cellOf (b.store.expression e).template.ast = formula at denotes
  cases denotes with
  | cell c => exact .inl ⟨c, rfl⟩
  | scalar => exact .inr ⟨formula, rfl⟩

end Build

/-! ## The new cell -/

/-- The symbol table in which a node answers to an id, if there is one. -/
def SymbolTable.naming (t : SymbolTable) (id : Option String) (n : Node) : SymbolTable :=
  match id with
  | some id => { t with ids := t.ids.put id (some n) }
  | none => t

theorem Store.updateCell_addCell (s : Store) (n : CellNode) (f : CellNode → CellNode) :
    (s.addCell n).2.updateCell (s.addCell n).1 f = (s.addCell (f n)).2 := by
  have last : (s.cells.entries.push n).modify s.cells.entries.size f =
      s.cells.entries.push (f n) := by
    ext i hi hj
    · simp
    · simp only [Array.size_modify, Array.size_push] at hi
      simp only [Array.getElem_modify, Array.getElem_push]
      split <;> split <;> first | rfl | omega
  simp [addCell, updateCell, Table.update, Table.push, Table.size, last]

namespace BuildM

variable {b : Build}

theorem runs_elementFor {value : Value} (single : Build.IsSingle value) (reference : Bool)
    (merges : ∀ c, 1 ≤ (b.store.cell c).merge.rows ∧ 1 ≤ (b.store.cell c).merge.cols) :
    ∃ n : CellNode, n.id = none ∧ n.header = none ∧ (1 ≤ n.merge.rows ∧ 1 ≤ n.merge.cols) ∧
      Runs (elementFor value reference) b (.cell (b.store.addCell n).1)
        { b with store := (b.store.addCell n).2 } := by
  have made : ∀ f : Formula, ∃ n : CellNode, n.id = none ∧ n.header = none ∧
      (1 ≤ n.merge.rows ∧ 1 ≤ n.merge.cols) ∧
      Runs (liftStore (StoreM.elementOf (.scalar f))) b (.cell (b.store.addCell n).1)
        { b with store := (b.store.addCell n).2 } := by
    intro f
    cases f <;> exact ⟨_, rfl, rfl, ⟨le_refl 1, le_refl 1⟩, rfl⟩
  rcases single with ⟨c, rfl⟩ | ⟨f, rfl⟩
  · cases reference with
    | true => exact made (.ref c)
    | false =>
        let n := b.store.cell c
        exact ⟨{ value := n.value, style := n.style, formula := n.formula, merge := n.merge }, rfl, rfl,
          merges c, rfl⟩
  · exact made f

theorem runs_registerId {key : String} (valid : isValidKey key = true) {e : Element} {n : Node}
    (node : e.node? = some n) :
    Runs (registerId key e) b () { b with symbols := b.symbols.naming (some key) n } := by
  rw [registerId, if_pos valid, node]
  exact runs_modify.2 rfl

/-- What a new cell takes over from the expression that produces it. -/
theorem runs_applyDeclared {n : CellNode} {d : Declared} (id : n.id = none)
    (valid : ∀ id ∈ d.id, isValidKey id = true) (header : d.header = none) :
    Runs (applyDeclared d (.cell (b.store.addCell n).1)) { b with store := (b.store.addCell n).2 } ()
      { b with
        store := (b.store.addCell { n with id := d.id, style := n.style.inherit d.cellStyle }).2
        symbols := b.symbols.naming d.id (.cell (b.store.addCell n).1) } := by
  obtain ⟨declared, heading, cellStyle, headerStyle⟩ := d
  obtain rfl : heading = none := header
  have styled : ∀ (b : Build) (m : CellNode), Runs (changeStore fun s =>
      s.updateCell (b.store.addCell n).1 fun n => { n with style := n.style.inherit cellStyle })
        { b with store := (b.store.addCell m).2 } ()
        { b with store := (b.store.addCell { m with style := m.style.inherit cellStyle }).2 } := by
    intro b m
    rw [runs_changeStore]
    exact congrArg (fun s => { b with store := s }) (updateCell_addCell b.store m _)
  rw [applyDeclared]
  dsimp only
  cases declared with
  | none =>
      have plain : { n with style := n.style.inherit cellStyle } =
          { n with id := none, style := n.style.inherit cellStyle } := by rw [← id]
      rw [← plain]
      exact styled b n
  | some key =>
      have unnamed : ((b.store.addCell n).2.id? (.cell (b.store.addCell n).1)).isNone = true := by
        rw [Store.id?, cell_addCell, id]
        rfl
      have named : Runs (setId (.cell (b.store.addCell n).1) key)
          { b with store := (b.store.addCell n).2 } ()
          { b with
            store := (b.store.addCell { n with id := some key }).2
            symbols := b.symbols.naming (some key) (.cell (b.store.addCell n).1) } := by
        refine runs_bind.2 ⟨(), _, runs_registerId (valid key rfl) rfl, runs_changeStore.2 ?_⟩
        dsimp only
        rw [updateCell_addCell]
      refine runs_bind.2 ⟨_, _, runs_get.2 ⟨rfl, rfl⟩, ?_⟩
      dsimp only
      rw [if_pos unnamed]
      refine runs_bind.2 ⟨(), _, named, ?_⟩
      exact styled { b with symbols := b.symbols.naming (some key) (.cell (b.store.addCell n).1) } _

end BuildM

/-- An expression whose keys are all bound makes a cell, which answers to its id. -/
theorem Build.Follows.runs_evalExpression {b₀ b : Build} {roots : List Element} {e : ExpressionId}
    (h : Follows b₀ roots b) (he : b.store.Under roots (.expression e))
    (ready : b.store.unboundKeys e = []) :
    ∃ n : CellNode, n.id = b.store.id? (.expression e) ∧ n.header = none ∧
      (1 ≤ n.merge.rows ∧ 1 ≤ n.merge.cols) ∧
      Runs (BuildM.evalExpression e (some .scalar) true) b (.cell (b.store.addCell n).1)
        { b with
          store := (b.store.addCell n).2
          symbols := b.symbols.naming n.id (.cell (b.store.addCell n).1) } := by
  obtain ⟨value, evaluated, single⟩ := h.expressionValue he ready
  obtain ⟨n, id, header, merge, made⟩ := BuildM.runs_elementFor single
    (true && (b.store.expression e).template.isRef) h.wf.merges
  have valid : ∀ id ∈ (b.store.expression e).declared.id, isValidKey id = true := by
    have same : (b.store.expression e).declared.id = (b₀.store.expression e).declared.id := h.ids e
    rw [same]
    exact h.start.ids e (h.within e he)
  have declared := @BuildM.runs_applyDeclared b n _ id valid (h.headers _ he)
  let d := (b.store.expression e).declared
  refine ⟨{ n with id := d.id, style := n.style.inherit d.cellStyle }, rfl, header, merge, ?_⟩
  refine runs_bind.2 ⟨b, b, runs_get.2 ⟨rfl, rfl⟩, runs_bind.2 ⟨value, b, ?_, ?_⟩⟩
  · rw [evaluated]
    exact runs_pure.2 ⟨rfl, rfl⟩
  · exact runs_bind.2 ⟨_, _, made, runs_bind.2 ⟨(), _, declared, runs_pure.2 ⟨rfl, rfl⟩⟩⟩

end Spreadsheet
