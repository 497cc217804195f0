import Spreadsheet.Proofs.Resolve.Ready

/-!
# A cell in the place of an expression

Putting a new cell in the place of a grounded expression of linked trees, with the id of the
expression, leaves all other elements of the trees where they are and in use.  The id finds the cell
from then on.
-/

namespace Spreadsheet

open Store

/-! ## The trees -/

namespace Store

variable {s : Store} {roots before rest : List Element} {v : VectorId} {e : ExpressionId}
  {n : CellNode}

/-- The store in which a new cell stands among the children of a vector. -/
def putCell (s : Store) (v : VectorId) (before rest : List Element) (n : CellNode) : Store :=
  (s.addCell n).2.setChildren (.vector v) (before ++ [.cell (s.addCell n).1] ++ rest)

theorem not_inStore_addCell (s : Store) (n : CellNode) : ¬s.InStore (.cell (s.addCell n).1) :=
  Nat.lt_irrefl _

theorem inStore_of_split (split : s.children (.vector v) = before ++ .expression e :: rest) :
    s.InStore (.vector v) := by
  have here : .expression e ∈ s.children (.vector v) := by simp [split]
  exact inStore_of_child here

theorem children_putCell_self (hv : s.InStore (.vector v)) (before rest : List Element)
    (n : CellNode) : (s.putCell v before rest n).children (.vector v) =
      before ++ [.cell (s.addCell n).1] ++ rest :=
  children_setChildren_self hv rfl _

theorem children_putCell_of_ne {x : Element} (ne : x ≠ .vector v) (before rest : List Element)
    (n : CellNode) : (s.putCell v before rest n).children x = s.children x :=
  ((regroups_setChildren _ _ _).others x ne).trans (children_addCell s n x)

theorem mem_children_putCell (split : s.children (.vector v) = before ++ .expression e :: rest)
    {parent child : Element} (below : child ∈ (s.putCell v before rest n).children parent) :
    child ∈ s.children parent ∨ child = .cell (s.addCell n).1 := by
  by_cases here : parent = .vector v
  · subst here
    rw [children_putCell_self (inStore_of_split split)] at below
    rw [split]
    simp only [List.mem_append, List.mem_cons, List.not_mem_nil, or_false] at below ⊢
    tauto
  · rw [children_putCell_of_ne here] at below
    exact .inl below

theorem mem_children_putCell_of_mem
    (split : s.children (.vector v) = before ++ .expression e :: rest) {parent child : Element}
    (below : child ∈ s.children parent) (ne : child ≠ .expression e) :
    child ∈ (s.putCell v before rest n).children parent := by
  by_cases here : parent = .vector v
  · subst here
    rw [children_putCell_self (inStore_of_child below)]
    rw [split] at below
    simp only [List.mem_append, List.mem_cons, List.not_mem_nil, or_false] at below ⊢
    tauto
  · rw [children_putCell_of_ne here]
    exact below

theorem shrinks_putCell (split : s.children (.vector v) = before ++ .expression e :: rest) :
    Shrinks s (s.putCell v before rest n) where
  fewer parent child below := (mem_children_putCell split below).imp id fun new => ⟨_, new⟩
  kept parent child below other :=
    mem_children_putCell_of_mem split below fun same => by
      rw [same] at other
      cases other

theorem under_putCell (split : s.children (.vector v) = before ++ .expression e :: rest)
    {x : Element} (under : (s.putCell v before rest n).Under roots x) :
    s.Under roots x ∨ x = .cell (s.addCell n).1 := by
  obtain ⟨root, hroot, reach⟩ := under
  cases reach with
  | root => exact .inl ⟨_, hroot, .root⟩
  | @child parent _ above below =>
      have parents := (shrinks_putCell split).under ⟨root, hroot, above⟩
        (ne_cell_of_isContainer (isContainer_of_child below))
      exact (mem_children_putCell split below).imp parents.child id

theorem under_putCell_of_ne (split : s.children (.vector v) = before ++ .expression e :: rest)
    {x : Element} (under : s.Under roots x) (ne : x ≠ .expression e) :
    (s.putCell v before rest n).Under roots x := by
  obtain ⟨root, hroot, reach⟩ := under
  cases reach with
  | root => exact ⟨_, hroot, .root⟩
  | @child parent _ above below =>
      have shrinks : Shrinks s (s.putCell v before rest n) := shrinks_putCell split
      have parents := shrinks.under_later ⟨root, hroot, above⟩
        (not_isProducer_of_isContainer (isContainer_of_child below))
      exact parents.child (mem_children_putCell_of_mem split below ne)

theorem names_putCell (x : Element) (ne : x ≠ .cell (s.addCell n).1) :
    (s.putCell v before rest n).id? x = s.id? x ∧
      (s.putCell v before rest n).header? x = s.header? x := by
  cases x with
  | cell c =>
      have other : c.index ≠ s.cells.size := fun same => ne (by cases c; cases same; rfl)
      have same : (s.putCell v before rest n).cell c = s.cell c :=
        (cell_addCell_eq s n c).trans (if_neg other)
      simp only [id?, header?, same, and_self]
  | vector w =>
      rcases vector_updateVector_cases s v w (fun m =>
        { m with children := before ++ [.cell (s.addCell n).1] ++ rest }) with same | same <;>
      · have entry : (s.putCell v before rest n).vector w = _ := same
        simp only [id?, header?, entry, and_self]
  | _ => exact ⟨rfl, rfl⟩

theorem names_putCell_self :
    (s.putCell v before rest n).id? (.cell (s.addCell n).1) = n.id ∧
      (s.putCell v before rest n).header? (.cell (s.addCell n).1) = n.header := by
  have entry : (s.putCell v before rest n).cell (s.addCell n).1 = n := cell_addCell s n
  simp only [id?, header?, entry, and_self]

theorem lightens_putCell (wf : s.WellFormed)
    (split : s.children (.vector v) = before ++ .expression e :: rest)
    (merge : 1 ≤ n.merge.rows ∧ 1 ≤ n.merge.cols) :
    Lightens (.vector v) s (s.putCell v before rest n) := by
  refine lightens_of_replace wf ((adds_addCell s merge).evolves wf) (advances_addCell s n)
    (inStore_of_split split) rfl split rfl fun z hz => ?_
  obtain rfl := List.mem_singleton.1 hz
  exact ⟨inStore_addCell s n, .of_not_isContainer rfl, rfl⟩

end Store

/-! ## The symbol table -/

namespace SymbolTable

variable {t : SymbolTable} {name : String} {n : Node}

theorem lookup_naming_self (isLocal : globalName? name = none) :
    (t.naming (some name) n).ids.localEntries.lookup name = some (some n) := by
  simp [naming, Namespace.put, isLocal, Entries.put]

theorem lookup_naming_of_ne {id : Option String} (ne : id ≠ some name) :
    (t.naming id n).ids.localEntries.lookup name = t.ids.localEntries.lookup name := by
  cases id with
  | none => rfl
  | some other =>
      rw [naming, Namespace.put]
      split
      · rfl
      · exact Entries.lookup_put_of_ne _ _ fun same => ne (by rw [same])

end SymbolTable

/-! ## The step -/

namespace Build

variable {b₀ b : Build} {roots before rest : List Element} {v : VectorId} {e : ExpressionId}
  {n : CellNode}

/-- The build in which a new cell, registered under its id, stands among the children of a vector. -/
def putCell (b : Build) (v : VectorId) (before rest : List Element) (n : CellNode) : Build :=
  { b with
    store := b.store.putCell v before rest n
    symbols := b.symbols.naming n.id (.cell (b.store.addCell n).1) }

theorem Orderly.ne_new (h : b.Orderly roots) {x : Element} (under : b.store.Under roots x)
    (n : CellNode) : x ≠ .cell (b.store.addCell n).1 := by
  rintro rfl
  obtain ⟨root, hroot, reach⟩ := under
  exact not_inStore_addCell b.store n (h.wf.inStore_of_reach (h.inStore root hroot) reach)

theorem Orderly.alive_putCell (h : b.Orderly roots)
    (split : b.store.children (.vector v) = before ++ .expression e :: rest) {x : Element}
    (under : (b.store.putCell v before rest n).Under roots x) {m : Node} (hm : m ∈ x.node?) :
    b.alive m = true := by
  rcases under_putCell split under with old | rfl
  · exact h.alive x old m hm
  · cases hm
    by_contra out
    exact not_inStore_addCell b.store n (h.existing _ (by simpa using out))

/-- What is in trees that are held from outside stays in use. -/
theorem under_alive_sweep (pinned : ∀ root ∈ roots, ∀ n ∈ root.node?, n ∈ b.pins)
    (alive : ∀ x, b.store.Under roots x → ∀ n ∈ x.node?, b.alive n = true) {x : Element}
    (under : b.store.Under roots x) {m : Node} (hm : m ∈ x.node?) : b.sweep.alive m = true := by
  let P : Node → Prop := fun m => ∃ x, b.store.Under roots x ∧ m ∈ x.node?
  have inside : P m := ⟨x, under, hm⟩
  refine Build.alive_sweep ?_ ?_ inside
  · rintro m ⟨x, ⟨root, hroot, reach⟩, hm⟩
    cases reach with
    | root => exact .inl (pinned _ hroot m hm)
    | @child parent _ above below =>
        obtain ⟨k, hk, has, holds⟩ := mem_holds below hm
        exact .inr ⟨k, ⟨parent, ⟨root, hroot, above⟩, hk⟩, has, holds⟩
  · rintro m ⟨x, under, hm⟩
    exact alive x under m hm

theorem Orderly.alive_sweep (h : b.Orderly roots)
    (split : b.store.children (.vector v) = before ++ .expression e :: rest) {x : Element}
    (under : (b.store.putCell v before rest n).Under roots x) {m : Node} (hm : m ∈ x.node?) :
    (b.putCell v before rest n).sweep.alive m = true :=
  under_alive_sweep (b := b.putCell v before rest n) h.pinned
    (fun _ under _ hm => h.alive_putCell split under hm) under hm

theorem Orderly.putCell (h : b.Orderly roots)
    (split : b.store.children (.vector v) = before ++ .expression e :: rest)
    (header : n.header = none) (merge : 1 ≤ n.merge.rows ∧ 1 ≤ n.merge.cols) :
    (b.putCell v before rest n).sweep.Orderly roots := by
  have lighter := lightens_putCell h.wf split merge
  have shrinks := shrinks_putCell (n := n) split
  exact
    { wf := lighter.wf
      inStore := fun root hroot => lighter.held root (h.inStore root hroot)
      pinned := h.pinned
      alive := fun x under m hm => h.alive_sweep split under hm
      existing := fun c out => by
        rcases has_of_not_alive_sweep out with before | has
        · exact lighter.held _ (h.existing c before)
        · exact has
      tops := h.tops
      sits := fun parent child under below producer => by
        have parents := shrinks.under under (ne_cell_of_isContainer (isContainer_of_child below))
        rcases mem_children_putCell split below with old | rfl
        · exact h.sits parent child parents old producer
        · cases producer
      flat := fun w child under below => by
        have parents := shrinks.under under (ne_cell_of_isContainer rfl)
        rcases mem_children_putCell split below with old | rfl
        · exact h.flat w child parents old
        · rfl
      headers := fun x under => by
        rcases under_putCell split under with old | rfl
        · exact (names_putCell x (h.ne_new old n)).2.trans (h.headers x old)
        · exact names_putCell_self.2.trans header }

theorem Follows.putCell (h : Follows b₀ roots b) (hv : b.store.Under roots (.vector v))
    (split : b.store.children (.vector v) = before ++ .expression e :: rest)
    (grounded : b₀.store.Grounded roots e) (id : n.id = b.store.id? (.expression e))
    (header : n.header = none) (merge : 1 ≤ n.merge.rows ∧ 1 ≤ n.merge.cols) :
    Follows b₀ roots (b.putCell v before rest n).sweep := by
  have shrinks := shrinks_putCell (n := n) split
  have start := h.within e (hv.child (by simp [split]))
  exact
    { toOrderly := h.toOrderly.putCell split header merge
      start := h.start
      template := h.template
      ids := fun x => (names_putCell _ (by simp)).1.trans (h.ids x)
      within := fun x under => h.within x (shrinks.under under (by simp))
      stays := fun x under stuck => under_putCell_of_ne split (h.stays x under stuck) fun same => by
        cases same
        exact stuck grounded
      cells := fun c name under named asked => by
        have named : (b.store.putCell v before rest n).id? (.cell c) = some name := named
        rcases under_putCell split under with old | new
        · rw [(names_putCell _ (h.ne_new old n)).1] at named
          exact h.cells c name old named asked
        · rw [new, names_putCell_self.1, id, h.ids e] at named
          obtain ⟨x, owns⟩ := h.start.exists_owns asked
          intro f under' named'
          have same := (owns.only _ under' rfl named').trans (owns.only _ start rfl named).symm
          cases same
          exact grounded
      entries := fun name asked => by
        obtain ⟨y, owns⟩ := h.start.exists_owns asked
        by_cases here : n.id = some name
        · have below : .cell (b.store.addCell n).1 ∈
              (b.store.putCell v before rest n).children (.vector v) := by
            rw [children_putCell_self (inStore_of_split split)]
            simp
          refine ⟨_, (shrinks.under_later hv rfl).child below, rfl, ?_, ?_⟩
          · exact names_putCell_self.1.trans here
          · show (b.symbols.naming n.id _).ids.localEntries.lookup name = _
            rw [here]
            exact SymbolTable.lookup_naming_self owns.isLocal
        · obtain ⟨x, under, leaf, named, entry⟩ := h.entries name asked
          have ne : x ≠ .expression e := by
            rintro rfl
            exact here (id.trans named)
          refine ⟨x, under_putCell_of_ne split under ne, leaf, ?_, ?_⟩
          · exact (names_putCell x (h.ne_new under n)).1.trans named
          · exact (SymbolTable.lookup_naming_of_ne here).trans entry
      bound := fun x under => h.bound x (shrinks.under under (by simp)) }

end Build

end Spreadsheet
