import Spreadsheet.Proofs.Resolve.Replaces
import Spreadsheet.Proofs.Resolve.Stalled

/-!
# The builds that resolving goes through

Resolving changes a build in two ways only: it tries a key of a producer, or it evaluates a producer
that is ready and puts what the container makes of the result in its place.  The builds after all these
steps, in order, are the history of the run.  What every step keeps holds throughout the history,
whether or not resolving succeeds.
-/

namespace Spreadsheet

open Store

/-! ## Steps -/

/-- Whether an expression is a producer or one of its operands. -/
def Store.Asks (s : Store) (e : ExpressionId) : Element → Prop
  | .expression x => e = x
  | .call c => .expression e ∈ (s.call c).args
  | _ => False

theorem Store.Binds.call {s t : Store} (h : Binds s t) (c : CallId) : t.call c = s.call c :=
  congrArg (Table.get · c.index) h.calls

theorem Store.Binds.asks {s t : Store} (h : Binds s t) {e : ExpressionId} {child : Element} :
    t.Asks e child ↔ s.Asks e child := by
  cases child with
  | call c => rw [Asks, Asks, h.call]
  | _ => exact Iff.rfl

namespace Build

variable {container child : Element} {b : Build}

/-- The build in which the keys of a producer have been tried. -/
def attempted (b : Build) (container : Element) : Element → Build
  | .expression e => b.bindKeys (some container) e
  | .call c => (b.store.call c).args.foldl (bindArgument (some container)) b
  | _ => b

/-- Whether everything is there that a producer waits for. -/
def ready (b : Build) : Element → Bool
  | .expression e => (b.store.unboundKeys e).isEmpty
  | .call c => (b.store.call c).args.all b.argumentReady
  | _ => false

theorem attempted_binds (b : Build) (container child : Element) :
    Binds b.store (b.attempted container child).store := by
  cases child with
  | expression e => exact bindKeys_binds _ e b
  | call c => exact bindArguments_binds _ _ b
  | _ => exact .refl _

end Build

namespace BuildM

variable {α β : Type} {container child : Element} {before rest : List Element} {b : Build}

/-- Evaluate a producer that is ready. -/
def evaluate (container : Element) : Element → BuildM Element
  | .expression e => evalExpression e (dimensionHint container) true
  | .call c => evalCall c (dimensionHint container)
  | child => return child

/-- Evaluate a producer that is ready, and put what the container makes of the result in its place. -/
def put (container : Element) (before : List Element) (child : Element) (rest : List Element) :
    BuildM (Element × List Element) := do
  let produced ← evaluate container child
  let spliced ← fit container produced
  changeStore fun s => s.setChildren container (before ++ spliced ++ rest)
  modify Build.sweep
  return (produced, spliced)

theorem attemptExpression_eq (e : ExpressionId) :
    (attemptExpression (some container) e b : Except SheetError Bool × Build) =
      (.ok ((b.attempted container (.expression e)).ready (.expression e)),
        b.attempted container (.expression e)) :=
  rfl

theorem attemptCall_eq (c : CallId) :
    (attemptCall (some container) c b : Except SheetError Bool × Build) =
      (.ok ((b.attempted container (.call c)).ready (.call c)), b.attempted container (.call c)) := by
  have same : (b.attempted container (.call c)).store.call c = b.store.call c := by
    rw [call, (b.attempted_binds container (.call c)).calls, call]
  rw [Build.ready, same]
  rfl

/-- Trying a producer tries its keys, and evaluates it if it is ready then. -/
theorem produce?_eq : (produce? container child b : Except SheetError (Option Element) × Build) =
    if (b.attempted container child).ready child then
      (do return some (← evaluate container child) : BuildM (Option Element))
        (b.attempted container child)
    else (.ok none, b.attempted container child) := by
  cases child with
  | expression e =>
      rw [produce?, bind_apply, attemptExpression_eq]
      dsimp only
      split <;> rfl
  | call c =>
      rw [produce?, bind_apply, attemptCall_eq]
      dsimp only
      split <;> rfl
  | _ => rfl

theorem replace?_eq : (replace? container before child rest b :
      Except SheetError (Option (Element × List Element)) × Build) =
    if (b.attempted container child).ready child then
      (do return some (← put container before child rest) :
        BuildM (Option (Element × List Element))) (b.attempted container child)
    else (.ok none, b.attempted container child) := by
  rw [replace?, bind_apply, produce?_eq]
  by_cases ready : (b.attempted container child).ready child = true
  · rw [if_pos ready, if_pos ready, put, bind_assoc, bind_apply, bind_apply]
    rcases (evaluate container child (b.attempted container child) :
      Except SheetError Element × Build) with ⟨_ | produced, m⟩
    · rfl
    · show ((fit container produced >>= _) m : Except SheetError _ × Build) = _
      dsimp only
      rw [bind_assoc, bind_apply, bind_apply]
      rcases (fit container produced m : Except SheetError (List Element) × Build) with ⟨_ | l, t⟩
      · rfl
      · rfl
  · rw [if_neg ready, if_neg ready]
    rfl

/-! ## One replacement -/

theorem isProducer_of_ready (ready : b.ready child = true) : isProducer child = true := by
  cases child <;> first | rfl | cases ready

theorem evaluate_sparing (container : Element) (ready : b.ready child = true) :
    Sparing b.store (evaluate container child) b fun e => ¬b.store.InStore e := by
  cases child with
  | expression e => exact Ensures.get_bind (produced_sparing (.refl b.store))
  | call c => exact Ensures.get_bind (produced_sparing (.refl b.store))
  | _ => cases ready

theorem evaluate_fresh (container : Element) (ready : b.ready child = true) (wf : b.store.WellFormed) :
    Evolving b.store (evaluate container child) b fun e t => Fresh b.store t e := by
  cases child with
  | expression e => exact evalExpression_fresh e _ true wf
  | call c => exact evalCall_fresh c _ wf
  | _ => cases ready

/-- What evaluating a producer and putting the result in its place comes to: it fails, or the new
children stand where the producer was.  Nothing else that was there before has changed. -/
inductive Puts (container : Element) (before : List Element) (child : Element)
    (rest : List Element) (b : Build) : Except SheetError (Element × List Element) × Build → Prop
  | failed {e : SheetError} {m : Build} (spares : Spares b.store m.store)
      (evolves : Evolves b.store m.store) : Puts container before child rest b (.error e, m)
  | placed {produced : Element} {spliced : List Element} {m₁ m : Build}
      (evaluated : Runs (evaluate container child) b produced m₁)
      (fitted : Runs (fit container produced) m₁ spliced m) (spares : Spares b.store m.store)
      (evolves : Evolves b.store m.store)
      (new : ∀ z ∈ spliced, ¬b.store.InStore z ∧ m.store.InStore z) :
      Puts container before child rest b (.ok (produced, spliced), Build.sweep
        { m with store := m.store.setChildren container (before ++ spliced ++ rest) })

theorem puts_put (container : Element) (before rest : List Element) (ready : b.ready child = true)
    (wf : b.store.WellFormed) :
    Puts container before child rest b (put container before child rest b :
      Except SheetError (Element × List Element) × Build) := by
  have sparing := evaluate_sparing container ready
  have evolving := evaluate_fresh container ready wf
  rw [put, bind_apply]
  rcases run : (evaluate container child b : Except SheetError Element × Build) with ⟨e | x, m₁⟩
  · rw [Sparing, Ensures, run] at sparing
    rw [Evolving, Ensures, run] at evolving
    exact .failed sparing.1 evolving.1
  · obtain ⟨spares, new⟩ := sparing.of_runs run
    obtain ⟨evolves, fresh⟩ := evolving.of_runs run
    have fitting : Sparing b.store (fit container x) m₁ fun l => ∀ z ∈ l, ¬b.store.InStore z :=
      fit_sparing new spares
    have growing := fit_fresh container evolves fresh
    dsimp only
    rw [bind_apply]
    rcases fits : (fit container x m₁ : Except SheetError (List Element) × Build) with ⟨e | l, m⟩
    · rw [Sparing, Ensures, fits] at fitting
      rw [Evolving, Ensures, fits] at growing
      exact .failed fitting.1 (evolves.trans growing.1)
    · obtain ⟨spares', anew⟩ := fitting.of_runs fits
      obtain ⟨evolves', piece⟩ := growing.of_runs fits
      exact .placed run fits spares' (evolves.trans evolves') fun z hz => ⟨anew z hz, (piece z hz).1⟩

variable {out : Except SheetError (Element × List Element) × Build}

theorem Puts.evolves (h : Puts container before child rest b out) (wf : b.store.WellFormed)
    (split : b.store.children container = before ++ child :: rest) :
    Evolves b.store out.2.store := by
  cases h with
  | failed spares evolves => exact evolves
  | @placed produced spliced m₁ m _ _ spares evolves new =>
      have here : child ∈ b.store.children container := by simp [split]
      have inside := inStore_of_child here
      have holds := isContainer_of_child here
      apply evolves.regroup wf inside holds (regroups_setChildren m.store container _)
      intro z hz
      rw [children_setChildren_self (evolves.held _ inside) holds] at hz
      by_cases fresh : z ∈ spliced
      · refine .of_apart (new z fresh).2 fun x _ old reach => ?_
        exact spares.not_inStore_of_reach (new z fresh).1 reach old
      · exact evolves.allowed_child wf (by rw [split]; simp at hz ⊢; tauto)

/-- After a replacement, what is new holds new elements only, and no other container has changed. -/
theorem Puts.brings (h : Puts container before child rest b out)
    (split : b.store.children container = before ++ child :: rest) : Brings b.store out.2.store := by
  cases h with
  | failed spares _ => exact spares.toBrings
  | @placed _ spliced _ m _ _ spares _ _ =>
      have inside : b.store.InStore container :=
        inStore_of_child (show child ∈ b.store.children container by simp [split])
      have regroups := regroups_setChildren m.store container (before ++ spliced ++ rest)
      refine ⟨fun e he => (regroups.inStore e).2 (spares.held e he), fun e z new below => ?_⟩
      have ne : e ≠ container := fun same => new (same ▸ inside)
      exact spares.fresh e z new (regroups.others e ne ▸ below)

theorem Puts.children_of_ne (h : Puts container before child rest b out) {e : Element}
    (old : b.store.InStore e) (ne : e ≠ container) :
    out.2.store.children e = b.store.children e := by
  cases h with
  | failed spares _ => exact spares.children old
  | @placed _ spliced _ m _ _ spares _ _ =>
      exact ((regroups_setChildren m.store container _).others e ne).trans (spares.children old)

theorem Puts.expression (h : Puts container before child rest b out) (x : ExpressionId) :
    out.2.store.expression x = b.store.expression x := by
  cases h with
  | failed spares _ => exact spares.expression x
  | placed _ _ spares _ _ =>
      refine Eq.trans ?_ (spares.expression x)
      cases container <;> rfl

end BuildM

/-! ## Histories -/

namespace Build

variable (container : Element)

/-- The builds that trying the keys of an expression goes through. -/
def keyStates (b : Build) (e : ExpressionId) : List Build :=
  (b.store.unboundKeys e).scanl (bindKey (some container) e) b

/-- The builds that trying the keys of some operands goes through. -/
def operandStates : List Argument → Build → List Build
  | [], b => [b]
  | .expression e :: rest, b =>
    b.keyStates container e ++ operandStates rest (b.bindKeys (some container) e)
  | _ :: rest, b => operandStates rest b

/-- The builds that trying the keys of a producer goes through. -/
def attemptStates (b : Build) : Element → List Build
  | .expression e => b.keyStates container e
  | .call c => operandStates container (b.store.call c).args b
  | _ => [b]

end Build

namespace BuildM

variable {α β : Type}

/-- The builds that trying to replace a producer goes through: its keys are tried, it is evaluated, and
what is made of the result is put in its place. -/
def replaceStates (container : Element) (before : List Element) (child : Element)
    (rest : List Element) (b : Build) : List Build :=
  b.attemptStates container child ++ [b.attempted container child,
    (produce? container child b : Except SheetError (Option Element) × Build).2,
    (replace? container before child rest b :
      Except SheetError (Option (Element × List Element)) × Build).2]

/-- The builds that follow on an operation, if it succeeds. -/
def after (m : BuildM α) (b : Build) (next : α → Build → List Build) : List Build :=
  match (m b : Except SheetError α × Build) with
  | (.ok a, t) => next a t
  | (.error _, _) => []

/-- The builds that a pass over the children of a container goes through. -/
def childStates (below : Element → BuildM Bool) (inner : Element → Build → List Build)
    (container : Element) : List Element → List Element → Build → List Build
  | _, [], b => [b]
  | before, child :: rest, b =>
    if child.isContainer then
      inner child b ++ after (below child) b fun _ m =>
        childStates below inner container (before ++ [child]) rest m
    else if isProducer child then
      replaceStates container before child rest b ++
        after (replace? container before child rest) b fun r m =>
          childStates below inner container
            (before ++ (r.map Prod.snd).getD [child]) rest m
    else childStates below inner container (before ++ [child]) rest b

/-- The builds that a pass over a container goes through. -/
def withinStates : Nat → Element → Build → List Build
  | 0, _, b => [b]
  | fuel + 1, container, b =>
    childStates (passWithin fuel) (withinStates fuel) container [] (b.store.children container) b

/-- The builds that one pass over each root goes through. -/
def passStates : List Element → Build → List Build
  | [], b => [b]
  | root :: rest, b =>
    withinStates b.store.depthBound root b ++ after (pass root) b fun _ m => passStates rest m

/-- The builds that resolving with a number of passes goes through. -/
def historyWithin (roots : List Element) : Nat → Option Nat → Build → List Build
  | 0, _, b => [b]
  | attempts + 1, last, b =>
    passStates roots b ++ after (passAll roots) b fun done m =>
      if done || last.any (· ≤ m.store.pendingWeight roots) then [m]
      else historyWithin roots attempts (some (m.store.pendingWeight roots)) m

/-- The builds that resolving goes through, in order. -/
def history (roots : List Element) (b : Build) : List Build :=
  historyWithin roots (max b.config.maxResolveAttempts 1) none b

/-! ## What every step keeps -/

/-- What it takes for a property of builds to be kept by every step of resolving, for two builds of
which one comes before the other to be related, and for errors to be of some kind. -/
structure Law (roots : List Element) (I : Build → Prop) (R : Build → Build → Prop)
    (E : SheetError → Prop) : Prop where
  refl : ∀ b, R b b
  trans : ∀ {b m t}, R b m → R m t → R b t
  wf : ∀ {b}, I b → b.store.WellFormed
  binds : ∀ {b : Build} {container child e key}, I b → b.store.Under roots container →
    child ∈ b.store.children container → b.store.Asks e child →
    key ∈ (b.store.expression e).template.keys →
    I (b.bindKey (some container) e key) ∧ R b (b.bindKey (some container) e key)
  evaluates : ∀ {b : Build} {container child}, I b → b.store.Under roots container →
    child ∈ b.store.children container → b.ready child = true →
    I (evaluate container child b : Except SheetError Element × Build).2 ∧
      R b (evaluate container child b : Except SheetError Element × Build).2
  puts : ∀ {b : Build} {container before child rest}, I b → b.store.Under roots container →
    b.store.children container = before ++ child :: rest → b.ready child = true →
    I (put container before child rest b : Except SheetError (Element × List Element) × Build).2 ∧
      R (evaluate container child b : Except SheetError Element × Build).2
        (put container before child rest b :
          Except SheetError (Element × List Element) × Build).2 ∧
      ∀ e, (put container before child rest b :
        Except SheetError (Element × List Element) × Build).1 = .error e → E e

/-- Whether some builds lead from the first one to what an operation leaves behind, and keep to a law
all the way. -/
structure Lawful (I : Build → Prop) (R : Build → Build → Prop) (E : SheetError → Prop) (b : Build)
    (l : List Build) (out : Except SheetError α × Build) : Prop where
  first : l.head? = some b
  last : l.getLast? = some out.2
  holds : ∀ t ∈ l, I t
  pairwise : l.Pairwise R
  fails : ∀ e, out.1 = .error e → E e

section

variable {roots : List Element} {I : Build → Prop} {R : Build → Build → Prop}
  {E : SheetError → Prop} {b m : Build} {l l' : List Build} {out : Except SheetError α × Build}

theorem Lawful.single (out : Except SheetError α × Build) (h : I out.2)
    (fails : ∀ e, out.1 = .error e → E e) :
    Lawful I R E out.2 [out.2] out where
  first := rfl
  last := rfl
  holds _ ht := List.mem_singleton.1 ht ▸ h
  pairwise := List.pairwise_singleton R _
  fails := fails

theorem Lawful.pure (h : I b) {a : α} : Lawful I R E b [b] (Except.ok a, b) :=
  .single (Except.ok a, b) h fun _ failed => by cases failed

theorem Lawful.congr (h : Lawful I R E b l out) {out' : Except SheetError β × Build}
    (same : out'.2 = out.2) (fails : ∀ e, out'.1 = .error e → out.1 = .error e) :
    Lawful I R E b l out' :=
  { h with
    last := same ▸ h.last
    fails := fun e he => h.fails e (fails e he) }

theorem Lawful.held (h : Lawful I R E b l out) : I out.2 :=
  h.holds _ (List.mem_of_getLast? h.last)

theorem Lawful.of_runs {x : BuildM α} {a : α}
    (h : Lawful I R E b l (x b : Except SheetError α × Build)) (run : Runs x b a m) : I m := by
  have held := h.held
  rwa [show (x b : Except SheetError α × Build) = (.ok a, m) from run] at held

theorem Lawful.fromStart (law : Law roots I R E) (h : Lawful I R E b l out) :
    ∀ t ∈ l, R b t := by
  intro t ht
  cases l with
  | nil => cases ht
  | cons x l =>
      obtain rfl : x = b := Option.some.inj h.first
      rcases List.mem_cons.1 ht with rfl | ht
      · exact law.refl t
      · exact List.rel_of_pairwise_cons h.pairwise ht

theorem Lawful.toEnd (law : Law roots I R E) (h : Lawful I R E b l out) :
    ∀ t ∈ l, R t out.2 := by
  intro t ht
  obtain ⟨l, rfl⟩ := List.getLast?_eq_some_iff.1 h.last
  rcases List.mem_append.1 ht with ht | ht
  · exact (List.pairwise_append.1 h.pairwise).2.2 t ht _ (by simp)
  · rw [List.mem_singleton.1 ht]
    exact law.refl _

/-- One history after another. -/
theorem Lawful.append (law : Law roots I R E) {first : Except SheetError α × Build}
    {out : Except SheetError β × Build} (h : Lawful I R E b l first)
    (h' : Lawful I R E first.2 l' out) : Lawful I R E b (l ++ l') out where
  first := by
    rw [List.head?_append, h.first]
    rfl
  last := by
    rw [List.getLast?_append, h'.last]
    rfl
  holds t ht := (List.mem_append.1 ht).elim (h.holds t) (h'.holds t)
  pairwise := by
    refine List.pairwise_append.2 ⟨h.pairwise, h'.pairwise, fun x hx y hy => ?_⟩
    exact law.trans (h.toEnd law x hx) (h'.fromStart law y hy)
  fails := h'.fails

theorem Lawful.cons (law : Law roots I R E) (start : I b) (step : R b m)
    (h : Lawful I R E m l out) : Lawful I R E b (b :: l) out where
  first := rfl
  last := by
    rw [List.getLast?_cons, h.last]
    rfl
  holds t ht := by
    rcases List.mem_cons.1 ht with rfl | ht
    · exact start
    · exact h.holds t ht
  pairwise := .cons (fun t ht => law.trans step (h.fromStart law t ht)) h.pairwise
  fails := h.fails

theorem Lawful.get_bind {f : Build → BuildM α}
    (h : Lawful I R E b l (f b b : Except SheetError α × Build)) :
    Lawful I R E b l ((get >>= f) b : Except SheetError α × Build) :=
  h

theorem Lawful.bind (law : Law roots I R E) {x : BuildM α} {f : α → BuildM β}
    {next : α → Build → List Build} (h : Lawful I R E b l (x b : Except SheetError α × Build))
    (h' : ∀ a t, Runs x b a t → I t →
      Lawful I R E t (next a t) (f a t : Except SheetError β × Build)) :
    Lawful I R E b (l ++ after x b next) ((x >>= f) b : Except SheetError β × Build) := by
  rw [after, bind_apply]
  have held := h.held
  rcases run : (x b : Except SheetError α × Build) with ⟨e | a, t⟩
  · rw [run] at h
    dsimp only
    rw [List.append_nil]
    exact h.congr rfl fun e' he' => by cases he'; rfl
  · rw [run] at h held
    exact h.append law (h' a t run held)

end

theorem state_map (x : BuildM α) (f : α → β) :
    ((do return f (← x) : BuildM β) b : Except SheetError β × Build).2 =
      (x b : Except SheetError α × Build).2 := by
  rw [bind_apply]
  rcases (x b : Except SheetError α × Build) with ⟨_ | _, t⟩ <;> rfl

theorem error_of_map {x : BuildM α} {f : α → β} {e : SheetError}
    (h : ((do return f (← x) : BuildM β) b : Except SheetError β × Build).1 = .error e) :
    (x b : Except SheetError α × Build).1 = .error e := by
  rw [bind_apply] at h
  generalize (x b : Except SheetError α × Build) = out at h ⊢
  rcases out with ⟨_ | _, t⟩
  · exact congrArg Except.error (Except.error.inj h)
  · cases h

/-! ## One producer -/

section

variable {roots : List Element} {I : Build → Prop} {R : Build → Build → Prop}
  {E : SheetError → Prop} {b : Build} {container child : Element} {before rest list : List Element}

theorem Law.foldl_bindKey (law : Law roots I R E) {e : ExpressionId} (h : I b)
    (under : b.store.Under roots container) (here : child ∈ b.store.children container)
    (asks : b.store.Asks e child) {keys : List Template.Key}
    (known : ∀ key ∈ keys, key ∈ (b.store.expression e).template.keys) :
    Lawful I R E b (keys.scanl (Build.bindKey (some container) e) b)
      (Except.ok (), keys.foldl (Build.bindKey (some container) e) b) := by
  induction keys generalizing b with
  | nil => exact .pure h
  | cons key keys ih =>
      obtain ⟨held, step⟩ := law.binds h under here asks (known key (by simp))
      have binds := Build.bindKey_binds (some container) e b key
      rw [List.scanl_cons, List.foldl_cons]
      apply Lawful.cons law h step
      apply ih held (binds.toAlike.under.2 under) (binds.children container ▸ here)
        (binds.asks.2 asks)
      intro other hother
      rw [binds.template]
      exact known other (List.mem_cons_of_mem key hother)

theorem Law.keyStates (law : Law roots I R E) {e : ExpressionId} (h : I b)
    (under : b.store.Under roots container) (here : child ∈ b.store.children container)
    (asks : b.store.Asks e child) :
    Lawful I R E b (b.keyStates container e) (Except.ok (), b.bindKeys (some container) e) :=
  law.foldl_bindKey h under here asks fun _ hkey => List.mem_of_mem_filter hkey

theorem Law.operandStates (law : Law roots I R E) {c : CallId} {args : List Argument}
    (h : I b) (under : b.store.Under roots container)
    (here : .call c ∈ b.store.children container) (known : args ⊆ (b.store.call c).args) :
    Lawful I R E b (b.operandStates container args)
      (Except.ok (), args.foldl (Build.bindArgument (some container)) b) := by
  induction args generalizing b with
  | nil => exact .pure h
  | cons arg args ih =>
      have others : args ⊆ (b.store.call c).args := fun x hx => known (List.mem_cons_of_mem arg hx)
      cases arg with
      | expression e =>
          have first := law.keyStates h under here (known (List.mem_cons_self ..))
          have binds := Build.bindKeys_binds (some container) e b
          rw [Build.operandStates, List.foldl_cons]
          apply first.append law
          apply ih first.held (binds.toAlike.under.2 under) (binds.children container ▸ here)
          exact binds.call c ▸ others
      | _ => exact ih h under here others

/-- Trying the keys of a producer keeps to every law. -/
theorem Law.attemptStates (law : Law roots I R E) (h : I b)
    (under : b.store.Under roots container) (here : child ∈ b.store.children container) :
    Lawful I R E b (b.attemptStates container child)
      (Except.ok (), b.attempted container child) := by
  cases child with
  | expression e => exact law.keyStates h under here rfl
  | call c => exact law.operandStates h under here fun _ hx => hx
  | _ => exact .pure h

/-- Trying to replace a producer keeps to every law. -/
theorem Law.replaceStates (law : Law roots I R E) (h : I b)
    (under : b.store.Under roots container)
    (split : b.store.children container = before ++ child :: rest) :
    Lawful I R E b (replaceStates container before child rest b)
      (replace? container before child rest b :
        Except SheetError (Option (Element × List Element)) × Build) := by
  have here : child ∈ b.store.children container := by simp [split]
  have attempts := law.attemptStates h under here
  refine attempts.append law ?_
  have held := attempts.held
  have alike := (b.attempted_binds container child).toAlike
  rw [replace?_eq, produce?_eq]
  generalize b.attempted container child = m at held alike
  dsimp only at held ⊢
  by_cases ready : m.ready child = true
  · rw [if_pos ready, if_pos ready]
    have under := alike.under.2 under
    have split := (alike.children container).trans split
    have here : child ∈ m.store.children container := by simp [split]
    obtain ⟨evaluated, evaluates⟩ := law.evaluates held under here ready
    obtain ⟨placed, puts, fails⟩ := law.puts held under split ready
    rw [state_map, state_map]
    apply Lawful.cons law held evaluates
    apply Lawful.cons law evaluated puts
    exact (Lawful.single _ placed fails).congr (state_map _ _) fun e => error_of_map
  · rw [if_neg ready, if_neg ready]
    have step := law.refl m
    exact Lawful.cons law held step (Lawful.cons law held step (.pure held))

/-! ## All passes -/

/-- A pass over the children of a container keeps to every law that the passes below keep to. -/
theorem Law.childStates (law : Law roots I R E) {below : Element → BuildM Bool}
    {inner : Element → Build → List Build}
    (hbelow : ∀ child b, I b → b.store.Under roots child →
      Lawful I R E b (inner child b) (below child b : Except SheetError Bool × Build))
    (lightens : ∀ child b done m, I b → Runs (below child) b done m →
      m = b ∨ Lightens child b.store m.store)
    (h : I b) (under : b.store.Under roots container)
    (split : b.store.children container = before ++ list) :
    Lawful I R E b (childStates below inner container before list b)
      (passChildren below container before list b : Except SheetError Bool × Build) := by
  induction list generalizing before b with
  | nil => exact .pure h
  | cons child rest ih =>
      have here : child ∈ b.store.children container := by simp [split]
      have next : b.store.children container = (before ++ [child]) ++ rest := by simp [split]
      have acyclic := (law.wf h).acyclic
      by_cases inside : child.isContainer = true
      · rw [BuildM.childStates, passChildren, if_pos inside, if_pos inside]
        apply Lawful.bind law (hbelow child b h (under.child here))
        intro done m run held
        suffices still : m.store.Under roots container ∧
            m.store.children container = (before ++ [child]) ++ rest from
          (ih held still.1 still.2).congr (state_map _ _) fun e => error_of_map
        rcases lightens child b done m h run with rfl | lighter
        · exact ⟨under, next⟩
        · refine ⟨lighter.under_later acyclic under (reach_of_child here), ?_⟩
          rw [← next]
          exact lighter.kept container (inStore_of_child here) (acyclic container child here)
      · by_cases producer : isProducer child = true
        · rw [BuildM.childStates, if_neg inside, if_pos producer, passChildren_producer _ producer]
          apply Lawful.bind law (law.replaceStates h under split)
          intro r m run held
          cases r with
          | none =>
              have alike := alike_of_waiting (runs_replace?_eq_none.1 run)
              exact (ih held (alike.under.2 under) ((alike.children _).trans next)).congr
                (state_map _ _) fun e => error_of_map
          | some made =>
              obtain ⟨lighter, split'⟩ := replace?_lightens (law.wf h) split producer run
              exact ih held (lighter.under_later acyclic under .root) split'
        · rw [BuildM.childStates, passChildren, if_neg inside, if_neg inside, if_neg producer,
            if_neg producer]
          exact ih h under next

theorem Law.withinStates (law : Law roots I R E) (fuel : Nat) (h : I b)
    (under : b.store.Under roots container) :
    Lawful I R E b (withinStates fuel container b)
      (passWithin fuel container b : Except SheetError Bool × Build) := by
  induction fuel generalizing container b with
  | zero => exact .pure h
  | succ fuel ih =>
      apply law.childStates (fun child b h under => ih h under) _ h under rfl
      exact fun child b done m h run => passWithin_lightens fuel (law.wf h) run

theorem Law.passStates (law : Law roots I R E) {l : List Element} (known : l ⊆ roots) (h : I b) :
    Lawful I R E b (passStates l b) (passAll l b : Except SheetError Bool × Build) := by
  induction l generalizing b with
  | nil => exact .pure h
  | cons root rest ih =>
      have under : b.store.Under roots root := ⟨root, known (List.mem_cons_self ..), .root⟩
      apply Lawful.bind law (x := pass root) (law.withinStates b.store.depthBound h under)
      intro done m _ held
      have others := ih (fun x hx => known (List.mem_cons_of_mem root hx)) held
      exact others.congr (state_map _ _) fun e => error_of_map

theorem Law.historyWithin (law : Law roots I R E) (all : ∀ e, E e) (attempts : Nat)
    (last : Option Nat) (h : I b) : Lawful I R E b (historyWithin roots attempts last b)
      (resolveWithin roots attempts last b : Except SheetError Unit × Build) := by
  induction attempts generalizing last b with
  | zero => exact .single (.error (b.store.unresolvedError roots), b) h fun e _ => all e
  | succ attempts ih =>
      apply Lawful.bind law (law.passStates (fun _ hx => hx) h)
      intro done m _ held
      cases done with
      | true => exact .pure held
      | false =>
          rw [if_neg Bool.false_ne_true, Bool.false_or]
          apply Lawful.get_bind
          by_cases stop : last.any (· ≤ m.store.pendingWeight roots) = true
          · rw [if_pos stop, if_pos stop]
            exact .single (.error (m.store.unresolvedError roots), m) held fun e _ => all e
          · rw [if_neg stop, if_neg stop]
            exact ih _ held

/-- A law without what it says of errors. -/
theorem Law.lenient (law : Law roots I R E) : Law roots I R fun _ => True where
  refl := law.refl
  trans := law.trans
  wf := law.wf
  binds := law.binds
  evaluates := law.evaluates
  puts h under split ready :=
    have placed := law.puts h under split ready
    ⟨placed.1, placed.2.1, fun _ _ => trivial⟩

/-- What every step of resolving keeps holds throughout its history. -/
theorem Law.history (law : Law roots I R E) (h : I b) : Lawful I R (fun _ => True) b
    (history roots b) (resolve roots b : Except SheetError Unit × Build) :=
  law.lenient.historyWithin (fun _ => trivial) _ none h

/-- A number of passes over all roots, whatever is still pending. -/
def passes (roots : List Element) : Nat → BuildM Unit
  | 0 => return
  | n + 1 => do
    let _ ← passAll roots
    passes roots n

theorem Law.passes (law : Law roots I R E) {n : Nat} {m : Build} {u : Unit} (h : I b)
    (run : Runs (passes roots n) b u m) : I m := by
  induction n generalizing b with
  | zero =>
      obtain ⟨-, rfl⟩ := runs_pure.1 run
      exact h
  | succ n ih =>
      obtain ⟨done, t, first, run⟩ := runs_bind.1 run
      exact ih ((law.passStates (fun _ hx => hx) h).of_runs first) run

/-- Resolving fails because a pass fails, or with the report on what is left after the last pass. -/
theorem resolveWithin_error {attempts : Nat} {last : Option Nat} {e : SheetError}
    (failed : (resolveWithin roots attempts last b : Except SheetError Unit × Build).1 = .error e) :
    ∃ n m, Runs (BuildM.passes roots n) b () m ∧
      ((passAll roots m : Except SheetError Bool × Build).1 = .error e ∨
        (resolveWithin roots attempts last b : Except SheetError Unit × Build) =
          (.error (m.store.unresolvedError roots), m)) := by
  induction attempts generalizing last b with
  | zero => exact ⟨0, b, rfl, .inr rfl⟩
  | succ attempts ih =>
      rw [resolveWithin_succ] at failed ⊢
      rcases run : (passAll roots b : Except SheetError Bool × Build) with ⟨e' | done, m⟩
      · rw [run] at failed
        obtain rfl : e' = e := Except.error.inj failed
        exact ⟨0, b, rfl, .inl (congrArg Prod.fst run)⟩
      · rw [run] at failed
        cases done with
        | true => cases failed
        | false =>
            dsimp only at failed ⊢
            have more : ∀ {n t}, Runs (BuildM.passes roots n) m () t →
                Runs (BuildM.passes roots (n + 1)) b () t :=
              fun runs => runs_bind.2 ⟨false, m, run, runs⟩
            by_cases stop : last.any (· ≤ m.store.pendingWeight roots) = true
            · rw [if_pos stop] at failed ⊢
              exact ⟨1, m, more rfl, .inr rfl⟩
            · rw [if_neg stop] at failed ⊢
              obtain ⟨n, t, runs, which⟩ := ih failed
              exact ⟨n + 1, t, more runs, which⟩

end

end BuildM

end Spreadsheet
