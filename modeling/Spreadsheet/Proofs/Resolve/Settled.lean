import Spreadsheet.Proofs.Resolve.Replace
import Spreadsheet.Proofs.Resolve.Stalled

/-!
# Passes over linked trees

A pass over linked trees never fails, and after it only those expressions are left that use another
one that was still in the trees when the pass began.
-/

namespace Spreadsheet

open Store

/-! ## Ranks -/

/-- Whether a number falls from every container to the containers in it. -/
def Store.Descends (s : Store) (rank : Element → Nat) : Prop :=
  ∀ parent child, child ∈ s.children parent → child.isContainer = true → rank child < rank parent

theorem Store.Shrinks.descends {s t : Store} {rank : Element → Nat} (h : Shrinks s t)
    (falls : s.Descends rank) : t.Descends rank := by
  intro parent child below container
  rcases h.fewer parent child below with old | ⟨c, rfl⟩
  · exact falls parent child old container
  · cases container

namespace Build

variable {b₀ b m b' : Build} {roots before rest : List Element} {v : VectorId} {e : ExpressionId}

/-! ## What a pass comes to -/

/-- Whether an expression uses one that is in the trees of a build. -/
def Waits (b₀ : Build) (roots : List Element) (b : Build) (e : ExpressionId) : Prop :=
  ∃ f, b₀.store.Uses roots e f ∧ b.store.Under roots (.expression f)

theorem Waits.earlier (h : Waits b₀ roots m e) (shrinks : Shrinks b.store m.store) :
    Waits b₀ roots b e := by
  obtain ⟨f, uses, under⟩ := h
  exact ⟨f, uses, shrinks.under under (by simp)⟩

/-- Whether passing over some elements, with the given answer, leaves those expressions below them
that had to wait. -/
structure Settles (b₀ : Build) (roots : List Element) (b : Build) (l : List Element) (done : Bool)
    (b' : Build) : Prop where
  follows : Follows b₀ roots b'
  shrinks : Shrinks b.store b'.store
  left : ∀ x ∈ l, ∀ e, Reach b'.store x (.expression e) → done = false ∧ Waits b₀ roots b e
  blocked : done = false → ∃ e, b.store.Under roots (.expression e) ∧ Waits b₀ roots b e

theorem Settles.nil (h : Follows b₀ roots b) : Settles b₀ roots b [] true b where
  follows := h
  shrinks := .refl _
  left x hx := absurd hx (by simp)
  blocked h := by cases h

theorem Settles.append {l more : List Element} {done last : Bool}
    (first : Settles b₀ roots b l done m) (second : Settles b₀ roots m more last b') :
    Settles b₀ roots b (l ++ more) (done && last) b' where
  follows := second.follows
  shrinks := first.shrinks.trans second.shrinks
  left x hx e reach := by
    rcases List.mem_append.1 hx with hx | hx
    · obtain ⟨rfl, waits⟩ := first.left x hx e (second.shrinks.reach reach (by simp))
      exact ⟨rfl, waits⟩
    · obtain ⟨rfl, waits⟩ := second.left x hx e reach
      exact ⟨Bool.and_false _, waits.earlier first.shrinks⟩
  blocked failed := by
    cases done with
    | false => exact first.blocked rfl
    | true =>
        obtain ⟨e, under, waits⟩ := second.blocked failed
        exact ⟨e, first.shrinks.under under (by simp), waits.earlier first.shrinks⟩

theorem reach_leaf {s : Store} {x y : Element} (leaf : x.isContainer = false) (h : Reach s x y) :
    y = x := by
  rcases h.eq_or_child with same | ⟨child, below, -⟩
  · exact same
  · rw [isContainer_of_child below] at leaf
    cases leaf

/-- A leaf that is no producer is done. -/
theorem Settles.leaf (h : Follows b₀ roots m) (shrinks : Shrinks b.store m.store)
    {x : Element} (leaf : x.isContainer = false)
    (other : isProducer x = false) : Settles b₀ roots b [x] true m where
  follows := h
  shrinks := shrinks
  left y hy e reach := by
    obtain rfl := List.mem_singleton.1 hy
    cases reach_leaf leaf reach
    cases other
  blocked h := by cases h

end Build

namespace BuildM

open Build

variable {b₀ b : Build} {roots before rest : List Element} {v : VectorId} {e : ExpressionId}
  {below : Element → BuildM Bool}

theorem runs_produce?_none (h : (b.bindKeys (some (.vector v)) e).store.unboundKeys e ≠ []) :
    Runs (produce? (.vector v) (.expression e)) b none (b.bindKeys (some (.vector v)) e) := by
  have attempted : Runs (attemptExpression (some (.vector v)) e) b false
      (b.bindKeys (some (.vector v)) e) := runs_attemptExpression.2 ⟨by simpa using h, rfl⟩
  refine runs_bind.2 ⟨false, _, attempted, ?_⟩
  exact runs_pure.2 ⟨rfl, rfl⟩

theorem runs_produce?_some (h : (b.bindKeys (some (.vector v)) e).store.unboundKeys e = [])
    {x : Element} {m : Build}
    (evaluated : Runs (evalExpression e (some .scalar) true) (b.bindKeys (some (.vector v)) e) x m) :
    Runs (produce? (.vector v) (.expression e)) b (some x) m := by
  have attempted : Runs (attemptExpression (some (.vector v)) e) b true
      (b.bindKeys (some (.vector v)) e) := runs_attemptExpression.2 ⟨by simpa using h, rfl⟩
  refine runs_bind.2 ⟨true, _, attempted, ?_⟩
  exact runs_bind.2 ⟨x, m, evaluated, runs_pure.2 ⟨rfl, rfl⟩⟩

/-- A vector takes a cell as it is. -/
theorem runs_replace?_cell {m : Build} {c : CellId}
    (tried : Runs (produce? (.vector v) (.expression e)) b (some (.cell c)) m) :
    Runs (replace? (.vector v) before (.expression e) rest) b (some (.cell c, [.cell c]))
      { m with store := m.store.setChildren (.vector v) (before ++ [Element.cell c] ++ rest) }.sweep := by
  refine runs_replace?_eq_some.2 ⟨m, m, tried, ?_, rfl⟩
  exact runs_bind.2 ⟨m, m, runs_get.2 ⟨rfl, rfl⟩, runs_pure.2 ⟨rfl, rfl⟩⟩

/-- Passing over an expression in a vector: it is left where it is, and has to wait, or a cell is put
in its place. -/
theorem passChildren_expression (h : Follows b₀ roots b) (hv : b.store.Under roots (.vector v))
    (split : b.store.children (.vector v) = before ++ .expression e :: rest) :
    ∃ x done m, Settles b₀ roots b [x] done m ∧
      m.store.children (.vector v) = before ++ x :: rest ∧
      ∀ d b', Passes below (.vector v) (before ++ [x]) rest m d b' →
        Passes below (.vector v) before (.expression e :: rest) b (done && d) b' := by
  have he : b.store.Under roots (.expression e) := hv.child (by simp [split])
  obtain ⟨follows, waits⟩ := h.bindKeys hv he
  have alike := (bindKeys_binds (some (.vector v)) e b).toAlike
  by_cases ready : (b.bindKeys (some (.vector v)) e).store.unboundKeys e = []
  · obtain ⟨n, id, header, merge, evaluated⟩ := follows.runs_evalExpression (alike.under.2 he) ready
    have split' := (alike.children (.vector v)).trans split
    have grounded := follows.grounded_of_ready (alike.under.2 he) ready
    have next := follows.putCell (alike.under.2 hv) split' grounded id header merge
    refine ⟨.cell ((b.bindKeys (some (.vector v)) e).store.addCell n).1, true, _,
      .leaf next (alike.shrinks.trans (shrinks_putCell split')) rfl rfl, ?_, fun d b' run => ?_⟩
    · exact (children_putCell_self (inStore_of_split split') _ _ _).trans (by simp)
    · exact .replaced rfl (runs_replace?_cell (runs_produce?_some ready evaluated)) run
  · obtain ⟨f, uses, under⟩ := waits ready
    refine ⟨.expression e, false, _, ⟨follows, alike.shrinks, ?_, ?_⟩,
      (alike.children _).trans split, fun d b' run => ?_⟩
    · intro x hx g reach
      obtain rfl := List.mem_singleton.1 hx
      cases reach_leaf (by rfl) reach
      exact ⟨rfl, f, uses, under⟩
    · exact fun _ => ⟨e, he, f, uses, under⟩
    · exact .waiting rfl (runs_produce?_none ready) run

variable {rank : Element → Nat} {fuel : Nat}

/-- A pass over the rest of the children of a container. -/
theorem passChildren_settles {container : Element}
    (hbelow : ∀ child b, Follows b₀ roots b → b.store.Under roots child →
      child.isContainer = true → b.store.Descends rank → rank child ≤ fuel →
      ∃ done b', Runs (passWithin fuel child) b done b' ∧ Settles b₀ roots b [child] done b')
    (h : Follows b₀ roots b) (hc : b.store.Under roots container) (falls : b.store.Descends rank)
    (enough : rank container ≤ fuel + 1) {list : List Element}
    (split : b.store.children container = before ++ list) :
    ∃ after done b', Passes (passWithin fuel) container before list b done b' ∧
      b'.store.children container = before ++ after ∧ Settles b₀ roots b after done b' := by
  induction list generalizing before b with
  | nil => exact ⟨[], true, b, .nil, split, .nil h⟩
  | cons child rest ih =>
      have here : child ∈ b.store.children container := by simp [split]
      -- What is left of the child, then what is left of the others.
      have further : ∀ {x done m}, Settles b₀ roots b [x] done m →
          m.store.children container = before ++ x :: rest →
          (∀ d b', Passes (passWithin fuel) container (before ++ [x]) rest m d b' →
            Passes (passWithin fuel) container before (child :: rest) b (done && d) b') →
          ∃ after done b', Passes (passWithin fuel) container before (child :: rest) b done b' ∧
            b'.store.children container = before ++ after ∧ Settles b₀ roots b after done b' := by
        intro x done m settles split' continues
        have under := settles.shrinks.under_later hc
          (not_isProducer_of_isContainer (isContainer_of_child here))
        obtain ⟨after, d, b', run, children, settles'⟩ := ih settles.follows under
          (settles.shrinks.descends falls) (split'.trans (List.append_cons before x rest))
        exact ⟨x :: after, done && d, b', continues d b' run, by simpa using children,
          settles.append settles'⟩
      by_cases inner : child.isContainer = true
      · have falling := falls container child here inner
        obtain ⟨done, m, run, settles⟩ := hbelow child b h (hc.child here) inner falls (by omega)
        refine further settles ?_ fun d b' others => .inside inner run others
        -- What happens below the child leaves the children of the container alone.
        rcases passWithin_lightens fuel h.wf run with rfl | lighter
        · exact split
        · exact (lighter.kept container (inStore_of_child here) fun reach =>
            h.wf.acyclic container child here reach).trans split
      · by_cases producer : isProducer child = true
        · obtain ⟨v, e, rfl, rfl⟩ := h.sits container child hc here producer
          obtain ⟨x, done, m, settles, split', continues⟩ := passChildren_expression h hc split
          exact further settles split' continues
        · rw [Bool.not_eq_true] at inner producer
          exact further (.leaf h (.refl _) inner producer) split fun d b' others =>
            .settled inner producer others

theorem passWithin_settles (positive : ∀ x, 0 < rank x) (h : Follows b₀ roots b)
    {container : Element} (hc : b.store.Under roots container)
    (other : isProducer container = false) (falls : b.store.Descends rank)
    (enough : rank container ≤ fuel) :
    ∃ done b', Runs (passWithin fuel container) b done b' ∧
      Settles b₀ roots b [container] done b' := by
  induction fuel generalizing container b with
  | zero =>
      have := positive container
      omega
  | succ fuel ih =>
      have split : b.store.children container = [] ++ b.store.children container := rfl
      obtain ⟨after, done, b', run, children, settles⟩ := passChildren_settles
        (fun child b h hc inner falls enough =>
          ih h hc (not_isProducer_of_isContainer inner) falls enough) h hc falls enough split
      refine ⟨done, b', runs_bind.2 ⟨b, b, runs_get.2 ⟨rfl, rfl⟩, run.runs⟩, ?_⟩
      refine ⟨settles.follows, settles.shrinks, fun x hx e reach => ?_, settles.blocked⟩
      obtain rfl := List.mem_singleton.1 hx
      rcases reach.eq_or_child with same | ⟨child, below, reach⟩
      · rw [← same] at other
        cases other
      · rw [children] at below
        exact settles.left child below e reach

theorem pass_settles (h : Follows b₀ roots b) {root : Element} (hroot : root ∈ roots) :
    ∃ done b', Runs (pass root) b done b' ∧ Settles b₀ roots b [root] done b' := by
  obtain ⟨rank, isRank⟩ := h.wf.acyclic.exists_rank
  obtain ⟨done, b', run, settles⟩ := passWithin_settles isRank.positive h ⟨root, hroot, .root⟩
    (h.tops root hroot) (fun parent child below _ => isRank.falls parent child below)
    (isRank.bounded root)
  exact ⟨done, b', runs_bind.2 ⟨b, b, runs_get.2 ⟨rfl, rfl⟩, run⟩, settles⟩

/-- A pass over all roots never fails, and leaves only expressions that had to wait. -/
theorem passAll_settles (h : Follows b₀ roots b) {l : List Element} (inside : ∀ x ∈ l, x ∈ roots) :
    ∃ done b', Runs (passAll l) b done b' ∧ Settles b₀ roots b l done b' := by
  induction l generalizing b with
  | nil => exact ⟨true, b, runs_pure.2 ⟨rfl, rfl⟩, .nil h⟩
  | cons root rest ih =>
      obtain ⟨done, m, first, settles⟩ := pass_settles h (inside root (by simp))
      obtain ⟨last, b', second, settles'⟩ := ih settles.follows fun x hx =>
        inside x (List.mem_cons_of_mem _ hx)
      refine ⟨done && last, b', ?_, settles.append settles'⟩
      exact runs_bind.2 ⟨done, m, first, runs_bind.2 ⟨last, b', second, runs_pure.2 ⟨rfl, rfl⟩⟩⟩

end BuildM

end Spreadsheet
