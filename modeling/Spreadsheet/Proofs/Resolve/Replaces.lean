import Spreadsheet.Proofs.Resolve.Names

/-!
# Replacements in a pass

A pass puts what producers make in their place.  Whatever it does, everything in the trees stays in
use.  So right after a replacement the id of the producer finds what was produced, provided the
container took it as a whole.
-/

namespace Spreadsheet

open Store

namespace Store

variable {s t u : Store} {roots : List Element}

theorem Advances.reach_earlier (h : Advances s t) (wf : s.WellFormed) {a x : Element}
    (ha : s.InStore a) (reach : Reach t a x) : Reach s a x ∧ s.InStore x := by
  induction reach with
  | root => exact ⟨.root, ha⟩
  | child _ below ih =>
      rw [h.children _ ih.2] at below
      exact ⟨.child ih.1 below, wf.closed _ _ below⟩

theorem Advances.under (h : Advances s t) {e : Element} (under : s.Under roots e) :
    t.Under roots e := by
  obtain ⟨root, hroot, reach⟩ := under
  refine ⟨root, hroot, ?_⟩
  induction reach with
  | root => exact .root
  | child _ below ih =>
      rw [← h.children _ (inStore_of_child below)] at below
      exact .child ih below

/-- What is above the element whose tree changed is still where it was. -/
theorem Lightens.reach_above {root top x : Element} (h : Lightens root s t) (acyclic : s.Acyclic)
    (above : Reach s top x) (below : Reach s x root) : Reach t top x := by
  induction above with
  | root => exact .root
  | @child parent x above here ih =>
      have still : t.children parent = s.children parent := by
        apply h.kept parent (inStore_of_child here)
        intro reach
        exact acyclic parent x here (below.trans reach)
      rw [← still] at here
      exact .child (ih ((reach_of_child (still ▸ here)).trans below)) here

theorem Lightens.under_later {e root : Element} (h : Lightens root s t) (acyclic : s.Acyclic)
    (under : s.Under roots e) (below : Reach s e root) : t.Under roots e := by
  obtain ⟨top, htop, above⟩ := under
  exact ⟨top, htop, h.reach_above acyclic above below⟩

theorem inStore_of_has {n : Node} (h : s.Has n) : s.InStore n.element := by
  cases n <;> first | exact h | trivial

end Store

/-! ## What the trees hold -/

namespace Build

variable {b b' : Build} {roots : List Element}

/-- The nodes that are in use, and those held from outside. -/
def use (b : Build) : Marks × List Node :=
  (b.unused, b.pins)

/-- Whether trees that are held from outside are in use. -/
structure Upheld (b : Build) (roots : List Element) : Prop where
  wf : b.store.WellFormed
  inStore : ∀ root ∈ roots, b.store.InStore root
  pinned : ∀ root ∈ roots, ∀ n ∈ root.node?, n ∈ b.pins
  alive : ∀ x, b.store.Under roots x → ∀ n ∈ x.node?, b.alive n = true
  /-- Only nodes of the store have gone out of use. -/
  existing : ∀ n, b.alive n = false → b.store.InStore n.element

theorem Upheld.inStore_of_under (h : b.Upheld roots) {e : Element} (under : b.store.Under roots e) :
    b.store.InStore e := by
  obtain ⟨root, hroot, reach⟩ := under
  exact h.wf.inStore_of_reach (h.inStore root hroot) reach

theorem alive_congr (same : b'.use = b.use) (n : Node) : b'.alive n = b.alive n := by
  rw [Build.alive, Build.alive, (Prod.mk.inj same).1]

theorem Upheld.later (h : b.Upheld roots) (same : b'.use = b.use) (wf : b'.store.WellFormed)
    (advances : Advances b.store b'.store) : b'.Upheld roots where
  wf := wf
  inStore root hroot := advances.held root (h.inStore root hroot)
  pinned root hroot n hn := by
    rw [(Prod.mk.inj same).2]
    exact h.pinned root hroot n hn
  alive := by
    rintro x ⟨root, hroot, reach⟩ n hn
    rw [alive_congr same]
    exact h.alive x ⟨root, hroot, (advances.reach_earlier h.wf (h.inStore root hroot) reach).1⟩ n hn
  existing n out := by
    rw [alive_congr same] at out
    exact advances.held _ (h.existing n out)

theorem Upheld.sweep (h : b.Upheld roots) : b.sweep.Upheld roots where
  wf := h.wf
  inStore := h.inStore
  pinned := h.pinned
  alive _ under _ hn := under_alive_sweep h.pinned h.alive under hn
  existing n out := (has_of_not_alive_sweep out).elim (h.existing n) inStore_of_has

/-- Putting something new among the children of a container leaves all in use. -/
theorem Upheld.setChildren {m : Build} {container child : Element}
    {before spliced rest : List Element} (h : b.Upheld roots) (same : m.use = b.use)
    (under : b.store.Under roots container)
    (split : b.store.children container = before ++ child :: rest)
    (advances : Advances b.store m.store) (brings : Brings b.store m.store)
    (new : ∀ z ∈ spliced, ¬b.store.InStore z)
    (wf : (m.store.setChildren container (before ++ spliced ++ rest)).WellFormed) :
    Upheld { m with store := m.store.setChildren container (before ++ spliced ++ rest) } roots := by
  have here : child ∈ b.store.children container := by simp [split]
  have inside := inStore_of_child here
  have regroups := regroups_setChildren m.store container (before ++ spliced ++ rest)
  have set := children_setChildren_self (advances.held _ inside) (isContainer_of_child here)
    (before ++ spliced ++ rest)
  have still : ∀ {a x : Element}, b.store.InStore a → Reach m.store a x → Reach b.store a x :=
    fun ha reach => (advances.reach_earlier h.wf ha reach).1
  refine
    { wf := wf
      inStore := fun root hroot => (regroups.inStore root).2 (advances.held _ (h.inStore root hroot))
      pinned := fun root hroot n hn => ?_
      alive := ?_
      existing := fun n out => ?_ }
  · have pins : m.pins = b.pins := (Prod.mk.inj same).2
    exact pins ▸ h.pinned root hroot n hn
  · rintro x ⟨root, hroot, reach⟩ n hn
    show m.alive n = true
    rw [alive_congr same]
    rcases regroups.reach_cases reach with reach | ⟨above, z, hz, below⟩
    · exact h.alive x ⟨root, hroot, still (h.inStore root hroot) reach⟩ n hn
    · rw [set] at hz
      by_cases fresh : z ∈ spliced
      · -- What is new has not gone out of use.
        by_contra out
        have element : n.element = x := element_of_node? hn
        apply brings.not_inStore_of_reach (new z fresh) below
        rw [← element]
        exact h.existing n (by simpa using out)
      · have old : z ∈ b.store.children container := by
          rw [split]
          simp at hz ⊢
          tauto
        have reach := still (h.wf.closed _ _ old) below
        obtain ⟨top, htop, above⟩ := under.child old
        exact h.alive x ⟨top, htop, above.trans reach⟩ n hn
  · have out : m.alive n = false := out
    rw [alive_congr same] at out
    exact (regroups.inStore _).2 (advances.held _ (h.existing n out))

/-- Whether a container with some children stands in trees that are in use. -/
structure Stands (b : Build) (roots : List Element) (container : Element) (children : List Element) :
    Prop where
  upheld : b.Upheld roots
  under : b.store.Under roots container
  children : b.store.children container = children

variable {container child : Element} {before rest : List Element}

theorem Stands.mem (h : b.Stands roots container (before ++ child :: rest)) :
    child ∈ b.store.children container := by
  rw [h.children]
  simp

theorem Stands.next (h : b.Stands roots container (before ++ child :: rest)) :
    b.Stands roots container ((before ++ [child]) ++ rest) := by
  simpa using h

end Build

/-! ## One replacement -/

/-- Whether a container takes the parts of an element and leaves the element. -/
def Element.takesParts : Element → Element → Bool
  | .vector _, .vector _ | .frame _, .frame _ => true
  | _, _ => false

namespace BuildM

open Build

variable {b b' m : Build} {roots : List Element} {container child produced : Element}
  {before rest spliced : List Element}

theorem use_of_produce? {r : Option Element} (run : Runs (produce? container child) b r m) :
    m.use = b.use :=
  Keeps.of_runs (produce?_quiet (fun _ _ => rfl) (fun _ _ _ => rfl) container child) run

theorem use_of_fit {l : List Element} (run : Runs (fit container produced) b l m) : m.use = b.use :=
  Keeps.of_runs (fit_quiet (fun _ _ _ => rfl) container produced) run

/-- What a producer makes is new, and what it declares is its id.  Up to then only keys are bound. -/
theorem produce?_anew (run : Runs (produce? container child) b (some produced) m) :
    ∃ m₁ : Build, Alike b.store m₁.store ∧ Spares m₁.store m.store ∧ ¬m₁.store.InStore produced ∧
      ∀ id ∈ b.store.id? child, m.symbols.ids = b.symbols.ids.put id produced.node? := by
  obtain ⟨m₁, m₂, value, reference, d, binds, names, declared, made, taken⟩ :=
    runs_produce?_eq_some run
  obtain ⟨spares, new⟩ := (elementFor_sparing (.refl m₁.store)).of_runs made
  obtain ⟨spares', -⟩ := (applyDeclared_sparing d new spares).of_runs taken
  obtain ⟨-, ids⟩ := applyDeclared_ids taken
  refine ⟨m₁, binds.toAlike, spares', new, fun id hid => ?_⟩
  have same : m₂.symbols = m₁.symbols :=
    Keeps.of_runs (elementFor_quiet (fun _ _ _ => rfl) value reference) made
  rw [ids id (declared.trans hid), same, names]

/-- A container that takes an element as a whole has it as a child, or a new vector around it. -/
theorem fit_takes {l : List Element} (whole : container.takesParts produced = false)
    (run : Runs (fit container produced) b l m) :
    ∃ z ∈ l, z = produced ∨ produced ∈ m.store.children z := by
  rcases runs_fit run with ⟨rfl, -⟩ | ⟨c, o, v, rfl, rfl, made⟩ | ⟨v, w, rfl, rfl, -, -⟩ |
    ⟨o, vectors, turned, which⟩
  · exact ⟨produced, by simp, .inl rfl⟩
  · obtain ⟨t, led, rfl⟩ := runs_liftStore.1 made
    simp only [StoreM.promote, leads_bind, leads_get] at led
    obtain ⟨_, _, ⟨rfl, rfl⟩, added⟩ := led
    obtain ⟨rfl, rfl⟩ := leads_modifyGet.1 added
    refine ⟨_, List.mem_singleton_self _, .inr ?_⟩
    rw [children_addVector_self]
    simp
  · cases whole
  · obtain ⟨rfl, -⟩ := runs_turnVectors.1 turned
    rcases which with ⟨v, rfl, rfl⟩ | ⟨f, g, rfl, rfl, -⟩
    · exact ⟨_, by simp, .inl rfl⟩
    · cases whole

/-- The steps of a replacement before nodes go out of use only add to the store. -/
theorem fit_replaces {m₁ : Build} (wf : b.store.WellFormed)
    (tried : Runs (produce? container child) b (some produced) m₁)
    (fitted : Runs (fit container produced) m₁ spliced m) :
    m.use = b.use ∧ Advances b.store m.store ∧ Brings b.store m.store ∧
      ∀ z ∈ spliced, ¬b.store.InStore z := by
  obtain ⟨advances, -⟩ := produce?_advances wf tried
  obtain ⟨m₀, alike, spares, anew, -⟩ := produce?_anew tried
  obtain ⟨spares', new⟩ := (fit_sparing anew spares).of_runs fitted
  refine ⟨?_, advances.trans ((fit_advancing container produced).of_runs fitted),
    .since_alike alike spares'.toBrings, fun z hz => mt (alike.inStore z).2 (new z hz)⟩
  exact (use_of_fit fitted).trans (use_of_produce? tried)

/-- After a replacement the container stands in trees that are in use, with what it made of the result
in the place of the producer. -/
theorem replace?_stands (h : b.Stands roots container (before ++ child :: rest))
    (producer : isProducer child = true)
    (run : Runs (replace? container before child rest) b (some (produced, spliced)) b') :
    b'.Stands roots container (before ++ spliced ++ rest) := by
  have wf := h.upheld.wf
  obtain ⟨lighter, children⟩ := replace?_lightens wf h.children producer run
  obtain ⟨m₁, m, tried, fitted, rfl⟩ := runs_replace?_eq_some.1 run
  obtain ⟨same, advances, brings, new⟩ := fit_replaces wf tried fitted
  refine ⟨Upheld.sweep ?_, lighter.under_later wf.acyclic h.under .root, children⟩
  exact h.upheld.setChildren same h.under h.children advances brings new lighter.wf

theorem waiting_stands {list : List Element} (h : b.Stands roots container list)
    (run : Runs (produce? container child) b none b') : b'.Stands roots container list := by
  have wf := h.upheld.wf
  obtain ⟨evolves, -⟩ := (produce?_fresh container child wf).of_runs run
  obtain ⟨advances, -⟩ := produce?_advances wf run
  refine ⟨h.upheld.later (use_of_produce? run) evolves.wf advances, advances.under h.under, ?_⟩
  rw [advances.children container (h.upheld.inStore_of_under h.under), h.children]

/-- What was produced is in the container that took it as a whole. -/
theorem replace?_reach (h : b.Stands roots container (before ++ child :: rest))
    (producer : isProducer child = true)
    (run : Runs (replace? container before child rest) b (some (produced, spliced)) b')
    (whole : container.takesParts produced = false) : Reach b'.store container produced := by
  have stands := replace?_stands h producer run
  obtain ⟨m₁, m, tried, fitted, rfl⟩ := runs_replace?_eq_some.1 run
  obtain ⟨-, -, -, new⟩ := fit_replaces h.upheld.wf tried fitted
  obtain ⟨z, hz, takes⟩ := fit_takes whole fitted
  let after : Store := m.store.setChildren container (before ++ spliced ++ rest)
  have here : z ∈ after.children container := by
    rw [show after.children container = before ++ spliced ++ rest from stands.children]
    simp [hz]
  rcases takes with rfl | below
  · exact reach_of_child here
  · have ne : z ≠ container := by
      rintro rfl
      exact new z hz (inStore_of_child h.mem)
    have still : after.children z = m.store.children z :=
      (regroups_setChildren m.store container _).others z ne
    exact (reach_of_child here).trans (reach_of_child (still ▸ below))

/-- The id of a producer finds what was produced right after it was replaced, and all cells of that are
in the container. -/
theorem replace?_lookup? (h : b.Stands roots container (before ++ child :: rest))
    (producer : isProducer child = true) {id : String} (named : b.store.id? child = some id)
    (run : Runs (replace? container before child rest) b (some (produced, spliced)) b')
    (whole : container.takesParts produced = false) :
    b'.lookup? id = some produced ∧ b'.store.leaves produced ⊆ b'.store.leaves container := by
  have stands := replace?_stands h producer run
  have reach := replace?_reach h producer run whole
  refine ⟨?_, stands.upheld.wf.acyclic.leaves_subset reach⟩
  obtain ⟨m₁, m, tried, fitted, rfl⟩ := runs_replace?_eq_some.1 run
  obtain ⟨_, -, -, anew, ids⟩ := produce?_anew tried
  obtain ⟨n, node⟩ : ∃ n, produced.node? = some n := by
    have solid := isSolid_of_not_inStore anew
    cases produced <;> first | exact ⟨_, rfl⟩ | cases solid
  have names : m.symbols.ids = b.symbols.ids.put id (some n) := by
    have same : m.symbols = m₁.symbols :=
      Keeps.of_runs (fit_quiet (fun _ _ _ => rfl) container produced) fitted
    rw [same, ids id named, node]
  let b' := Build.sweep
    { m with store := m.store.setChildren container (before ++ spliced ++ rest) }
  have used : b'.alive n = true := by
    obtain ⟨root, hroot, above⟩ := stands.under
    exact stands.upheld.alive produced ⟨root, hroot, above.trans reach⟩ n node
  calc b'.lookup? id
    _ = (m.symbols.lookup b'.alive id).map Node.element := rfl
    _ = some n.element := by rw [SymbolTable.lookup_put names used, Option.map_some]
    _ = some produced := by rw [element_of_node? node]

/-! ## All replacements of a pass -/

/-- What was produced in the place of a child of a container, with the builds right before and right
after. -/
structure Replacement where
  container : Element
  child : Element
  produced : Element
  start : Build
  stop : Build

/-- The replacements of a pass over the children of a container, given those of the passes below. -/
inductive ReplacesAmong (fuel : Nat) (deeper : Element → Build → Replacement → Prop)
    (container : Element) : List Element → List Element → Build → Replacement → Prop
  | inside {before rest : List Element} {child : Element} {b : Build} {r : Replacement}
      (inner : child.isContainer = true) (made : deeper child b r) :
      ReplacesAmong fuel deeper container before (child :: rest) b r
  | beyond {before rest : List Element} {child : Element} {b b' : Build} {done : Bool}
      {r : Replacement} (inner : child.isContainer = true)
      (run : Runs (passWithin fuel child) b done b')
      (later : ReplacesAmong fuel deeper container (before ++ [child]) rest b' r) :
      ReplacesAmong fuel deeper container before (child :: rest) b r
  | here {before rest spliced : List Element} {child produced : Element} {b b' : Build}
      (producer : isProducer child = true)
      (run : Runs (replace? container before child rest) b (some (produced, spliced)) b') :
      ReplacesAmong fuel deeper container before (child :: rest) b ⟨container, child, produced, b, b'⟩
  | after {before rest spliced : List Element} {child produced : Element} {b b' : Build}
      {r : Replacement} (producer : isProducer child = true)
      (run : Runs (replace? container before child rest) b (some (produced, spliced)) b')
      (later : ReplacesAmong fuel deeper container (before ++ spliced) rest b' r) :
      ReplacesAmong fuel deeper container before (child :: rest) b r
  | waiting {before rest : List Element} {child : Element} {b b' : Build} {r : Replacement}
      (producer : isProducer child = true)
      (run : Runs (replace? container before child rest) b none b')
      (later : ReplacesAmong fuel deeper container (before ++ [child]) rest b' r) :
      ReplacesAmong fuel deeper container before (child :: rest) b r
  | settled {before rest : List Element} {child : Element} {b : Build} {r : Replacement}
      (leaf : child.isContainer = false) (done : isProducer child = false)
      (later : ReplacesAmong fuel deeper container (before ++ [child]) rest b r) :
      ReplacesAmong fuel deeper container before (child :: rest) b r

/-- The replacements of a pass over a container that looks at most `fuel` steps down. -/
def Replaces : Nat → Element → Build → Replacement → Prop
  | 0, _, _, _ => False
  | fuel + 1, container, b, r =>
    ReplacesAmong fuel (Replaces fuel) container [] (b.store.children container) b r

theorem alike_of_waiting (run : Runs (produce? container child) b none b') :
    Alike b.store b'.store := by
  cases child with
  | expression e =>
      obtain ⟨ready, m, attempted, run⟩ := runs_bind.1 run
      obtain ⟨-, rfl⟩ := runs_attemptExpression.1 attempted
      split at run
      case isTrue =>
        obtain ⟨_, _, -, run⟩ := runs_bind.1 run
        cases (runs_pure.1 run).1
      case isFalse =>
        obtain ⟨-, rfl⟩ := runs_pure.1 run
        exact (Build.bindKeys_binds _ e b).toAlike
  | call c =>
      obtain ⟨ready, m, attempted, run⟩ := runs_bind.1 run
      obtain rfl := eq_of_attemptCall attempted
      split at run
      case isTrue =>
        obtain ⟨_, _, -, run⟩ := runs_bind.1 run
        cases (runs_pure.1 run).1
      case isFalse =>
        obtain ⟨-, rfl⟩ := runs_pure.1 run
        exact (Build.bindArguments_binds _ _ b).toAlike
  | _ =>
      obtain ⟨-, rfl⟩ := runs_pure.1 run
      exact .refl _

theorem Passes.alike {fuel : Nat} {list : List Element} {done : Bool}
    (hbelow : ∀ child b done b', (∀ r, ¬Replaces fuel child b r) →
      Runs (passWithin fuel child) b done b' → Alike b.store b'.store)
    (h : Passes (passWithin fuel) container before list b done b')
    (none : ∀ r, ¬ReplacesAmong fuel (Replaces fuel) container before list b r) :
    Alike b.store b'.store := by
  induction h with
  | nil => exact .refl _
  | inside inner first others ih =>
      have deeper := hbelow _ _ _ _ (fun r made => none r (.inside inner made)) first
      exact deeper.trans (ih fun r later => none r (.beyond inner first later))
  | replaced producer first others ih => exact absurd (.here producer first) (none _)
  | waiting producer first others ih =>
      exact (alike_of_waiting first).trans
        (ih fun r later => none r (.waiting producer (runs_replace?_eq_none.2 first) later))
  | settled leaf other others ih => exact ih fun r later => none r (.settled leaf other later)

/-- A pass changes the trees by its replacements only. -/
theorem passWithin_alike (fuel : Nat) {done : Bool} (none : ∀ r, ¬Replaces fuel container b r)
    (run : Runs (passWithin fuel container) b done b') : Alike b.store b'.store := by
  induction fuel generalizing container b b' done with
  | zero =>
      obtain ⟨-, rfl⟩ := runs_pure.1 run
      exact .refl _
  | succ fuel ih =>
      obtain ⟨_, _, got, run⟩ := runs_bind.1 run
      obtain ⟨rfl, rfl⟩ := runs_get.1 got
      exact (passes_of_runs run).alike (fun _ _ _ _ none run => ih none run) none

theorem below_stands {fuel : Nat} {done : Bool}
    (h : b.Stands roots container (before ++ child :: rest)) (upheld : b'.Upheld roots)
    (run : Runs (passWithin fuel child) b done b') :
    b'.Stands roots container (before ++ child :: rest) := by
  have acyclic := h.upheld.wf.acyclic
  rcases passWithin_lightens fuel h.upheld.wf run with rfl | lighter
  · exact h
  · refine ⟨upheld, lighter.under_later acyclic h.under (reach_of_child h.mem), ?_⟩
    rw [← h.children]
    exact lighter.kept container (inStore_of_child h.mem) (acyclic container child h.mem)

theorem Passes.upheld {fuel : Nat} {list : List Element} {done : Bool}
    (hbelow : ∀ child b done b', b.Upheld roots → b.store.Under roots child →
      Runs (passWithin fuel child) b done b' → b'.Upheld roots)
    (h : Passes (passWithin fuel) container before list b done b')
    (stands : b.Stands roots container (before ++ list)) : b'.Upheld roots := by
  induction h with
  | nil => exact stands.upheld
  | inside inner first others ih =>
      have upheld := hbelow _ _ _ _ stands.upheld (stands.under.child stands.mem) first
      exact ih (below_stands stands upheld first).next
  | replaced producer first others ih => exact ih (replace?_stands stands producer first)
  | waiting producer first others ih => exact ih (waiting_stands stands first).next
  | settled leaf other others ih => exact ih stands.next

/-- A pass leaves everything in the trees in use. -/
theorem passWithin_upheld (fuel : Nat) {done : Bool} (h : b.Upheld roots)
    (under : b.store.Under roots container) (run : Runs (passWithin fuel container) b done b') :
    b'.Upheld roots := by
  induction fuel generalizing container b b' done with
  | zero =>
      obtain ⟨-, rfl⟩ := runs_pure.1 run
      exact h
  | succ fuel ih =>
      obtain ⟨_, _, got, run⟩ := runs_bind.1 run
      obtain ⟨rfl, rfl⟩ := runs_get.1 got
      exact (passes_of_runs run).upheld (fun _ _ _ _ h under run => ih h under run) ⟨h, under, rfl⟩

/-- Whether a replacement is one in trees that are in use. -/
def Replacement.Proper (r : Replacement) (roots : List Element) : Prop :=
  ∃ before rest spliced, r.start.Stands roots r.container (before ++ r.child :: rest) ∧
    isProducer r.child = true ∧
    Runs (replace? r.container before r.child rest) r.start (some (r.produced, spliced)) r.stop

theorem ReplacesAmong.proper {fuel : Nat} {deeper : Element → Build → Replacement → Prop}
    {list : List Element} {r : Replacement}
    (hdeeper : ∀ child b, b.Upheld roots → b.store.Under roots child → deeper child b r →
      r.Proper roots)
    (made : ReplacesAmong fuel deeper container before list b r)
    (h : b.Stands roots container (before ++ list)) : r.Proper roots := by
  induction made with
  | inside inner made => exact hdeeper _ _ h.upheld (h.under.child h.mem) made
  | beyond inner run later ih =>
      have upheld := passWithin_upheld fuel h.upheld (h.under.child h.mem) run
      exact ih hdeeper (below_stands h upheld run).next
  | here producer run => exact ⟨_, _, _, h, producer, run⟩
  | after producer run later ih => exact ih hdeeper (replace?_stands h producer run)
  | waiting producer run later ih =>
      exact ih hdeeper (waiting_stands h (runs_replace?_eq_none.1 run)).next
  | settled leaf done later ih => exact ih hdeeper h.next

/-- Every replacement of a pass is one in trees that are in use. -/
theorem Replaces.proper {fuel : Nat} {r : Replacement} (h : b.Upheld roots)
    (under : b.store.Under roots container) (made : Replaces fuel container b r) :
    r.Proper roots := by
  induction fuel generalizing container b with
  | zero => cases made
  | succ fuel ih =>
      exact ReplacesAmong.proper (fun _ _ h under made => ih h under made) made ⟨h, under, rfl⟩

/-- Right after a pass has replaced a producer that has an id, the id finds what was produced, with all
its cells in the container, unless the container took only the parts of it. -/
theorem lookup?_of_replaces {fuel : Nat} {r : Replacement} {id : String} (h : b.Upheld roots)
    (under : b.store.Under roots container) (made : Replaces fuel container b r)
    (named : r.start.store.id? r.child = some id)
    (whole : r.container.takesParts r.produced = false) :
    r.stop.lookup? id = some r.produced ∧
      r.stop.store.leaves r.produced ⊆ r.stop.store.leaves r.container := by
  obtain ⟨before, rest, spliced, stands, producer, run⟩ := Replaces.proper h under made
  exact replace?_lookup? stands producer named run whole

/-! ## A price that is doubled -/

/-- The template `[price] * 2`. -/
def twicePrice : Template.Prepared where
  source := "[price] * 2"
  expanded := "refs[\"price\"] * 2"
  keys := [.name "price"]
  isRef := false
  ast := .binary .mul (.ref (.name "price")) (.number 2)

/-- The column `price`, and a column and a stack in which expressions double it. -/
def doubling : Build where
  store :=
    { cells := ⟨#[{ value := .number 3 }, { value := .number 4 }, { value := .number 1 }]⟩
      vectors := ⟨#[
        { orientation := .vertical
          children := [.cell ⟨0⟩, .cell ⟨1⟩]
          attributes.id := some "price" },
        { orientation := .vertical, children := [.cell ⟨2⟩, .expression ⟨0⟩] }]⟩
      groups := ⟨#[{ orientation := .vertical, children := [.expression ⟨1⟩] }]⟩
      expressions := ⟨#[
        { template := twicePrice, declared.id := some "double" },
        { template := twicePrice, declared.id := some "twice" }]⟩ }
  symbols := { ids := { localEntries := [("price", some (.vector ⟨0⟩)),
    ("double", some (.expression ⟨0⟩)), ("twice", some (.expression ⟨1⟩))] } }
  pins := [.vector ⟨0⟩, .vector ⟨1⟩, .stack ⟨0⟩]

theorem doubling_upheld : doubling.Upheld [.vector ⟨0⟩, .vector ⟨1⟩, .stack ⟨0⟩] where
  wf := by
    refine wellFormed_of_falling (fun e => e.isContainer.toNat) (by decide) ?_
    intro i _
    rcases i with _ | _ | _ | i <;> exact ⟨le_refl 1, le_refl 1⟩
  inStore := by decide
  pinned := by decide
  alive _ _ n _ := by cases n <;> rfl
  existing n out := by cases n <;> cases out

/-- What is known of a replacement by the new vector, as far as it can be computed. -/
theorem runs_replace?_doubling {container child : Element} {before : List Element}
    (computed : ∃ c, (replace? container before child [] doubling :
        Except SheetError (Option (Element × List Element)) × Build).1 = .ok c ∧
      (c.bind fun made => made.1.node?) = some (.vector ⟨2⟩)) :
    ∃ spliced, Runs (replace? container before child []) doubling (some (.vector ⟨2⟩, spliced))
      (replace? container before child [] doubling :
        Except SheetError (Option (Element × List Element)) × Build).2 := by
  obtain ⟨c, answer, node⟩ := computed
  cases c with
  | none => cases node
  | some made =>
      obtain ⟨produced, spliced⟩ := made
      obtain rfl : Element.vector ⟨2⟩ = produced := element_of_node? node
      exact ⟨spliced, runs_of_eq_ok ⟨_, answer, rfl⟩⟩

/-- A stack takes the doubled column, and the id finds it there. -/
theorem lookup?_of_replaces_stack : ∃ r : Replacement, Replaces 1 (.stack ⟨0⟩) doubling r ∧
    r.start.store.id? r.child = some "twice" ∧ r.container.takesParts r.produced = false ∧
    r.stop.lookup? "twice" = some r.produced ∧
    r.stop.store.leaves r.produced ⊆ r.stop.store.leaves r.container := by
  obtain ⟨spliced, run⟩ := @runs_replace?_doubling (.stack ⟨0⟩) (.expression ⟨1⟩) []
    (by decide +kernel)
  have made : Replaces 1 (.stack ⟨0⟩) doubling _ := ReplacesAmong.here rfl run
  have under : doubling.store.Under [.vector ⟨0⟩, .vector ⟨1⟩, .stack ⟨0⟩] (.stack ⟨0⟩) :=
    ⟨_, by simp, .root⟩
  exact ⟨_, made, rfl, rfl, lookup?_of_replaces doubling_upheld under made rfl rfl⟩

/-- A column takes the cells of the doubled column, and the id finds nothing. -/
theorem lookup?_doubled_column : ∃ r : Replacement,
    doubling.Upheld [.vector ⟨0⟩, .vector ⟨1⟩, .stack ⟨0⟩] ∧
    Replaces 1 (.vector ⟨1⟩) doubling r ∧ r.start.store.id? r.child = some "double" ∧
    r.stop.lookup? "double" = none := by
  obtain ⟨spliced, run⟩ := @runs_replace?_doubling (.vector ⟨1⟩) (.expression ⟨0⟩) [.cell ⟨2⟩]
    (by decide +kernel)
  have made : Replaces 1 (.vector ⟨1⟩) doubling _ :=
    ReplacesAmong.settled rfl rfl (.here rfl run)
  have gone : ((replace? (.vector ⟨1⟩) [.cell ⟨2⟩] (.expression ⟨0⟩) [] doubling :
      Except SheetError (Option (Element × List Element)) × Build).2.lookup? "double").isNone =
        true := by
    decide +kernel
  exact ⟨_, doubling_upheld, made, rfl, Option.isNone_iff_eq_none.1 gone⟩

end BuildM

end Spreadsheet
