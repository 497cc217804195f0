import Spreadsheet.Proofs.Resolve.Solvable
import Spreadsheet.Proofs.Resolve.Timely
import Spreadsheet.Proofs.Template.References

/-!
# What keys are bound to

A key is bound to an element under which nothing is pending.  Such an element is shared with the trees
that go on being resolved, but a step changes the children of a container only where one of them is a
producer, and what it makes holds none: so nothing is ever pending again under an element once nothing
is.  Therefore resolving never computes with anything pending.
-/

namespace Spreadsheet

open Template (Key Expr)
open Store

namespace Store

variable {s t u : Store}

/-! ## Elements stay calm -/

theorem Spares.reach_later (h : Spares s t) {a x : Element} (reach : Reach s a x) :
    Reach t a x := by
  induction reach with
  | root => exact .root
  | child _ below ih =>
      rw [← h.children (inStore_of_child below)] at below
      exact .child ih below

theorem Brings.isPending_of_new (h : Brings s t) (acyclic : t.Acyclic) {e : Element}
    (new : ¬s.InStore e) : t.isPending e = false := by
  rw [acyclic.isPending_eq_false_iff]
  intro x reach
  have solid := isSolid_of_not_inStore (h.not_inStore_of_reach new reach)
  cases x <;> first | rfl | cases solid

/-- Nothing becomes pending under an element, where only containers with producers below them get new
children. -/
theorem Brings.calm (h : Brings s t) (wf : s.WellFormed) (acyclic : t.Acyclic)
    (same : ∀ e, s.InStore e → s.isPending e = false → t.children e = s.children e) {e : Element}
    (calm : s.isPending e = false) : t.isPending e = false := by
  by_cases old : s.InStore e
  · rw [acyclic.isPending_eq_false_iff]
    intro x reach
    suffices s.InStore x ∧ s.isPending x = false from wf.acyclic.not_isProducer this.2
    induction reach with
    | root => exact ⟨old, calm⟩
    | @child parent x _ below ih =>
        rw [same parent ih.1 ih.2] at below
        exact ⟨wf.closed parent x below, wf.acyclic.isPending_child ih.2 below⟩
  · exact h.isPending_of_new acyclic old

/-- What every step of resolving keeps of the keys that are bound. -/
structure Secures (s t : Store) : Prop where
  calm : ∀ e, s.isPending e = false → t.isPending e = false
  template : ∀ x, (t.expression x).template = (s.expression x).template
  /-- More keys may have been bound, to elements under which nothing is pending. -/
  bound : ∀ x, ∃ more, (t.expression x).bound = (s.expression x).bound ++ more ∧
    ∀ entry ∈ more, t.isPending entry.2 = false

theorem Secures.refl (s : Store) : Secures s s where
  calm _ calm := calm
  template _ := rfl
  bound x := ⟨[], (List.append_nil _).symm, fun _ h => absurd h (by simp)⟩

theorem Secures.trans (first : Secures s t) (second : Secures t u) : Secures s u where
  calm e calm := second.calm e (first.calm e calm)
  template x := (second.template x).trans (first.template x)
  bound x := by
    obtain ⟨more, same, calm⟩ := first.bound x
    obtain ⟨more', same', calm'⟩ := second.bound x
    refine ⟨more ++ more', by rw [same', same, List.append_assoc], fun entry hentry => ?_⟩
    rcases List.mem_append.1 hentry with old | new
    · exact second.calm _ (calm entry old)
    · exact calm' entry new

theorem Secures.lookup (h : Secures s t) {x : ExpressionId} {key : Key} {found : Element}
    (bound : (s.expression x).bound.lookup key = some found) :
    (t.expression x).bound.lookup key = some found := by
  obtain ⟨more, same, -⟩ := h.bound x
  rw [same, List.lookup_append, bound]
  rfl

theorem Secures.of_calm (calm : ∀ e, s.isPending e = false → t.isPending e = false)
    (same : ∀ x, t.expression x = s.expression x) : Secures s t where
  calm := calm
  template x := congrArg ExpressionNode.template (same x)
  bound x := ⟨[], by rw [same, List.append_nil], fun _ h => absurd h (by simp)⟩

end Store

namespace Build

/-! ## Sound builds -/

/-- Whether the keys that are bound are bound to elements under which nothing is pending, and the
references of every template are among its keys. -/
structure Sound (b : Build) : Prop where
  wf : b.store.WellFormed
  bound : ∀ x entry, entry ∈ (b.store.expression x).bound → b.store.isPending entry.2 = false
  refs : ∀ x key, key ∈ (b.store.expression x).template.ast.refs →
    key ∈ (b.store.expression x).template.keys

variable {b b' : Build} {e : ExpressionId} {key : Key}

theorem Sound.later (h : b.Sound) (secures : Secures b.store b'.store) (wf : b'.store.WellFormed) :
    b'.Sound where
  wf := wf
  bound x entry hentry := by
    obtain ⟨more, same, calm⟩ := secures.bound x
    rw [same] at hentry
    rcases List.mem_append.1 hentry with old | new
    · exact secures.calm _ (h.bound x entry old)
    · exact calm entry new
  refs x key hkey := by
    rw [secures.template] at hkey ⊢
    exact h.refs x key hkey

theorem bindKey_secures (wf : b.store.WellFormed) (container : Option Element) (e : ExpressionId)
    (key : Key) : Secures b.store (b.bindKey container e key).store := by
  have binds := bindKey_binds container e b key
  have alike := binds.toAlike
  have calm : ∀ x, b.store.isPending x = false →
      (b.bindKey container e key).store.isPending x = false := fun x =>
    ((Brings.refl b.store).alike alike).calm wf (alike.acyclic wf.acyclic) fun y _ _ =>
      alike.children y
  rcases bindKey_cases container e b key with same | ⟨found, -, free, same⟩
  · rw [same]
    exact .refl _
  · refine ⟨calm, binds.template, fun x => ?_⟩
    have calm := calm found free
    rw [same] at calm ⊢
    rcases expression_updateExpression_cases b.store e x (fun n =>
      { n with bound := n.bound ++ [(key, found)] }) with kept | more
    · exact ⟨[], by rw [kept, List.append_nil], fun _ h => absurd h (by simp)⟩
    · refine ⟨[(key, found)], by rw [more], fun entry hentry => ?_⟩
      rw [List.mem_singleton.1 hentry]
      exact calm

theorem Sound.bindKey (h : b.Sound) (container : Option Element) (e : ExpressionId) (key : Key) :
    (b.bindKey container e key).Sound ∧ Secures b.store (b.bindKey container e key).store := by
  have secures := bindKey_secures h.wf container e key
  have alike := (bindKey_binds container e b key).toAlike
  exact ⟨h.later secures (alike.wellFormed h.wf), secures⟩

/-! ## Values -/

theorem Sound.expressionValue_timely (h : b.Sound) {hint : Option Dimension}
    (ready : b.store.unboundKeys e = []) :
    Timely (Value.Calm b.store) (b.store.expressionValue e hint) := by
  apply Scope.eval_timely h.wf.acyclic
  intro key hkey
  cases found : (b.store.expression e).bound.lookup key with
  | some element =>
      have entry : (key, element) ∈ (b.store.expression e).bound := by
        obtain ⟨before, after, split, -⟩ := List.lookup_eq_some_iff.1 found
        rw [split]
        simp
      exact ⟨element, rfl, h.bound e _ entry⟩
  | none =>
      have left : key ∈ b.store.unboundKeys e :=
        List.mem_filter.2 ⟨h.refs e key hkey, by simp [found]⟩
      rw [ready] at left
      cases left

theorem Sound.callNodeValue_timely (h : b.Sound) {c : CallId} {hint : Option Dimension}
    (ready : ∀ arg ∈ (b.store.call c).args, b.argumentReady arg = true) :
    Timely (Value.Calm b.store) (b.store.callNodeValue c hint) := by
  have operands : ∀ arg ∈ (b.store.call c).args,
      Timely (Value.Calm b.store) (b.store.argumentValue arg) := by
    intro arg harg
    have ready := ready arg harg
    cases arg with
    | literal v => trivial
    | element e =>
        have calm : b.store.isPending e = false := by simpa [argumentReady] using ready
        exact calm
    | expression e => exact h.expressionValue_timely (by simpa [argumentReady] using ready)
    | span first last => trivial
  exact (Timely.mapM operands).bind fun _ calm => callValue_timely h.wf.acyclic calm

end Build

namespace BuildM

open Build

variable {α β : Type} {b : Build} {container child : Element} {before rest : List Element}
  {roots : List Element}

/-! ## One replacement -/

/-- Whether an operation fails at most with an error that is not premature. -/
def InTime (m : BuildM α) (b : Build) : Prop :=
  ∀ e, (m b : Except SheetError α × Build).1 = .error e → e.isPremature = false

theorem InTime.pure {a : α} : InTime (pure a) b :=
  fun _ failed => by cases failed

theorem InTime.throw {e : SheetError} (h : e.isPremature = false) :
    InTime (throw e : BuildM α) b :=
  fun e' failed => by cases failed; exact h

theorem InTime.liftStore {m : StoreM α} : InTime (liftStore m) b :=
  fun _ failed => by cases failed

theorem InTime.changeStore {f : Store → Store} : InTime (changeStore f) b :=
  fun _ failed => by cases failed

theorem InTime.modify {f : Build → Build} : InTime (modify f) b :=
  fun _ failed => by cases failed

theorem InTime.get_bind {f : Build → BuildM α} (h : InTime (f b) b) : InTime (get >>= f) b :=
  h

theorem InTime.bind {x : BuildM α} {f : α → BuildM β} (hx : InTime x b)
    (hf : ∀ a t, Runs x b a t → InTime (f a) t) : InTime (x >>= f) b := by
  intro e failed
  rw [bind_apply] at failed
  rcases run : (x b : Except SheetError α × Build) with ⟨e' | a, t⟩
  · rw [run] at failed
    obtain rfl : e' = e := Except.error.inj failed
    exact hx e' (congrArg Prod.fst run)
  · rw [run] at failed
    exact hf a t run e failed

theorem InTime.ofExcept {x : Except SheetError α} {P : α → Prop} (h : Timely P x) :
    InTime (ofExcept x) b := by
  cases x with
  | ok a => exact .pure
  | error e => exact .throw h

theorem refuse_inTime : InTime (refuse container child : BuildM α) b :=
  .get_bind (.throw rfl)

theorem elementFor_inTime (acyclic : b.store.Acyclic) {v : Value} (calm : v.Calm b.store)
    {reference : Bool} : InTime (elementFor v reference) b := by
  unfold elementFor
  apply InTime.get_bind
  split
  · exact .liftStore
  · exact .throw rfl
  · exact InTime.bind .liftStore fun _ _ _ => .pure
  · exact InTime.bind .liftStore fun _ _ _ => .pure
  · exact InTime.bind .liftStore fun _ _ _ => .pure
  · exact (InTime.ofExcept (gridOf_timely acyclic calm)).bind fun _ _ _ => .liftStore

theorem registerId_inTime {key : String} {e : Element} : InTime (registerId key e) b := by
  unfold registerId
  split
  · exact .modify
  · exact .throw rfl

theorem registerHeader_inTime {key : String} {e : Element} : InTime (registerHeader key e) b := by
  unfold registerHeader
  split
  · exact .modify
  · exact .pure

theorem takeName_inTime {bare : Store → Bool} {set register : String → BuildM Unit}
    (hset : ∀ name, InTime (set name) b) (hregister : ∀ name, InTime (register name) b)
    (name : Option String) : InTime (takeName bare set register name) b := by
  cases name with
  | none => exact .pure
  | some name =>
      apply InTime.get_bind
      split
      · exact hset name
      · exact hregister name

theorem applyDeclared_inTime (d : Declared) (e : Element) : InTime (applyDeclared d e) b := by
  rw [applyDeclared_eq]
  refine (takeName_inTime (fun _ => ?_) (fun _ => registerId_inTime) d.id).bind fun _ _ _ => ?_
  · exact registerId_inTime.bind fun _ _ _ => .changeStore
  refine (takeName_inTime (fun _ => ?_) (fun _ => registerHeader_inTime) d.header).bind
    fun _ _ _ => .changeStore
  exact registerHeader_inTime.bind fun _ _ _ => .changeStore

theorem produced_inTime (acyclic : b.store.Acyclic) {x : Except SheetError Value}
    (h : Timely (Value.Calm b.store) x) {reference : Bool} {d : Declared} : InTime (do
      let element ← elementFor (← ofExcept x) reference
      applyDeclared d element
      return element) b := by
  apply (InTime.ofExcept h).bind
  intro value t evaluated
  cases x with
  | error e => exact absurd evaluated not_runs_throw
  | ok v =>
      obtain ⟨rfl, rfl⟩ := runs_pure.1 evaluated
      exact (elementFor_inTime acyclic h).bind fun e _ _ =>
        (applyDeclared_inTime d e).bind fun _ _ _ => .pure

/-- Evaluating a producer that is ready comes across nothing that is pending. -/
theorem evaluate_inTime (h : b.Sound) (ready : b.ready child = true) :
    InTime (evaluate container child) b := by
  cases child with
  | expression e =>
      apply InTime.get_bind
      exact produced_inTime h.wf.acyclic (h.expressionValue_timely (by simpa [Build.ready] using ready))
  | call c =>
      apply InTime.get_bind
      exact produced_inTime h.wf.acyclic (h.callNodeValue_timely (by simpa [Build.ready] using ready))
  | _ => cases ready

theorem fit_inTime (produced : Element) : InTime (fit container produced) b := by
  unfold fit
  apply InTime.get_bind
  split
  · exact .pure
  · exact .pure
  · exact refuse_inTime
  · exact (InTime.liftStore.bind fun _ _ _ => .pure).bind fun _ _ _ => .pure
  · exact InTime.changeStore.bind fun _ _ _ => .pure
  · exact InTime.changeStore.bind fun _ _ _ => .pure
  · exact refuse_inTime
  · exact (InTime.liftStore.bind fun _ _ _ => .pure).bind fun _ _ _ => .pure
  · exact .pure

theorem put_inTime (h : b.Sound) (ready : b.ready child = true) :
    InTime (put container before child rest) b := by
  apply (evaluate_inTime h ready).bind
  intro produced _ _
  apply (fit_inTime produced).bind
  intro spliced _ _
  exact InTime.changeStore.bind fun _ _ _ => InTime.modify.bind fun _ _ _ => .pure

theorem isPending_of_child {s : Store} (acyclic : s.Acyclic) (here : child ∈ s.children container)
    (producer : isProducer child = true) : s.isPending container = true := by
  by_contra calm
  rw [Bool.not_eq_true] at calm
  have leaf := acyclic.not_isProducer (acyclic.isPending_child calm here)
  rw [producer] at leaf
  cases leaf

variable {out : Except SheetError (Element × List Element) × Build}

/-- What is put in the place of a producer leaves all elements calm under which nothing was pending:
the container of the producer is none of them. -/
theorem Puts.calm (h : Puts container before child rest b out) (wf : b.store.WellFormed)
    (split : b.store.children container = before ++ child :: rest)
    (producer : isProducer child = true) {e : Element} (calm : b.store.isPending e = false) :
    out.2.store.isPending e = false := by
  have here : child ∈ b.store.children container := by simp [split]
  have evolves := h.evolves wf split
  apply (h.brings split).calm wf evolves.wf.acyclic _ calm
  intro x old free
  apply h.children_of_ne old
  rintro rfl
  rw [isPending_of_child wf.acyclic here producer] at free
  cases free

/-- The law of bound keys. -/
theorem sound_law (roots : List Element) : Law roots Sound
    (fun b t => Secures b.store t.store) (fun e => e.isPremature = false) where
  refl b := .refl b.store
  trans := Secures.trans
  wf h := h.wf
  binds h _ _ _ _ := h.bindKey _ _ _
  evaluates := by
    intro b container child h _ _ ready
    obtain ⟨spares, -⟩ := evaluate_sparing container ready
    obtain ⟨evolves, -⟩ := evaluate_fresh container ready h.wf
    have secures := Secures.of_calm (fun e => spares.toBrings.calm h.wf evolves.wf.acyclic
      fun x old _ => spares.children old) spares.expression
    exact ⟨h.later secures evolves.wf, secures⟩
  puts := by
    intro b container before child rest h _ split ready
    obtain ⟨spares, -⟩ := evaluate_sparing container ready
    have puts := puts_put container before rest ready h.wf
    have producer := isProducer_of_ready ready
    have evolves := puts.evolves h.wf split
    have calm := fun e => puts.calm h.wf split producer (e := e)
    have since := Secures.of_calm calm puts.expression
    refine ⟨h.later since evolves.wf, .of_calm (fun e free => ?_) fun x => ?_, put_inTime h ready⟩
    · -- What was calm after the evaluation was so before, or is new.
      by_cases old : b.store.InStore e
      · apply calm
        have acyclic := ((evaluate_fresh container ready h.wf).1).wf.acyclic
        rw [acyclic.isPending_eq_false_iff] at free
        rw [h.wf.acyclic.isPending_eq_false_iff]
        exact fun x reach => free x (spares.reach_later reach)
      · exact (puts.brings split).isPending_of_new evolves.wf.acyclic old
    · rw [puts.expression, spares.expression]

end BuildM

/-! ## Resolving from the start -/

/-- Whether no key is bound yet, and every template has been prepared and asks for no position above
2^53. -/
structure Build.Untried (b : Build) : Prop where
  unbound : ∀ x, (b.store.expression x).bound = []
  prepared : ∀ x : ExpressionId, x.index < b.store.expressions.size →
    ∃ text, Template.prepare text = .ok (b.store.expression x).template
  small : ∀ x i, Key.position i ∈ (b.store.expression x).template.keys → i ≤ 2 ^ 53

theorem Build.Untried.sound {b : Build} (h : b.Untried) (wf : b.store.WellFormed) : b.Sound where
  wf := wf
  bound x entry hentry := by
    rw [h.unbound] at hentry
    cases hentry
  refs x key hkey := by
    by_cases inside : x.index < b.store.expressions.size
    · obtain ⟨text, prepared⟩ := h.prepared x inside
      exact Template.mem_keys_of_mem_refs prepared (h.small x) hkey
    · rw [expression, get_eq_default (Nat.le_of_not_lt inside)] at hkey
      cases hkey

namespace BuildM

variable {roots : List Element} {b : Build}

/-- What it means that resolving never computes with anything pending. -/
structure OnTime (roots : List Element) (b : Build) : Prop where
  /-- The history leads from the first build to what resolving leaves behind. -/
  spans : (history roots b).head? = some b ∧
    (history roots b).getLast? = some (resolve roots b : Except SheetError Unit × Build).2
  /-- No pass, after any number of passes, fails because something is used too early. -/
  passes : ∀ n m, Runs (passes roots n) b () m → InTime (passAll roots) m
  /-- An error that says so is the report on what is left after the last pass. -/
  reports : ∀ e, (resolve roots b : Except SheetError Unit × Build).1 = .error e →
    e.isPremature = true → ∃ n m, Runs (BuildM.passes roots n) b () m ∧
      (resolve roots b : Except SheetError Unit × Build) =
        (.error (m.store.unresolvedError roots), m)
  /-- What keys are bound to is never pending. -/
  calm : ∀ t ∈ history roots b, ∀ x entry, entry ∈ (t.store.expression x).bound →
    t.store.isPending entry.2 = false
  /-- A key that is bound stays bound to the same element. -/
  stays : (history roots b).Pairwise fun t u => ∀ x key found,
    (t.store.expression x).bound.lookup key = some found →
      (u.store.expression x).bound.lookup key = some found

/-- Resolving never computes with anything pending, whether or not it succeeds. -/
theorem resolve_onTime (roots : List Element) (wf : b.store.WellFormed) (untried : b.Untried) :
    OnTime roots b := by
  have start := untried.sound wf
  have law := sound_law roots
  have lawful := law.history start
  have timely : ∀ n m, Runs (passes roots n) b () m → InTime (passAll roots) m := by
    intro n m run
    have held := law.passes start run
    exact (law.passStates (fun _ hx => hx) held).fails
  refine ⟨⟨lawful.first, lawful.last⟩, timely, ?_, ?_, ?_⟩
  · intro e failed premature
    obtain ⟨n, m, run, inside | report⟩ := resolveWithin_error failed
    · have late := timely n m run e inside
      rw [premature] at late
      cases late
    · exact ⟨n, m, run, report⟩
  · exact fun t ht => (lawful.holds t ht).bound
  · apply lawful.pairwise.imp
    intro t u secures x key found bound
    exact secures.lookup bound

theorem pair_untried {first second : String} {p q : Template.Prepared}
    (hp : Template.prepare first = .ok p) (hq : Template.prepare second = .ok q) (fitP : Fit p)
    (fitQ : Fit q) : (pair p q).Untried := by
  have none : ∀ i, Key.position i ∉ [Key.name "a", .name "b", .name "rent"] := by simp
  have cases : ∀ x : ExpressionId, x = ⟨0⟩ ∨ x = ⟨1⟩ ∨ (pair p q).store.expression x = default := by
    rintro ⟨_ | _ | i⟩
    · exact .inl rfl
    · exact .inr (.inl rfl)
    · exact .inr (.inr rfl)
  refine ⟨fun x => ?_, fun x inside => ?_, fun x i hi => ?_⟩
  · rcases cases x with rfl | rfl | outside
    · rfl
    · rfl
    · rw [outside]
      rfl
  · rcases x with ⟨_ | _ | i⟩
    · exact ⟨first, hp⟩
    · exact ⟨second, hq⟩
    · exact absurd inside (by simp [pair, Table.size])
  · rcases cases x with rfl | rfl | outside
    · exact absurd (fitP.2 _ hi) (none i)
    · exact absurd (fitQ.2 _ hi) (none i)
    · rw [outside] at hi
      cases hi

/-- Two formulas that wait for each other, one of which also uses a cell. -/
theorem resolve_onTime_pair : ∃ p q, Template.prepare "[b] & [rent]" = .ok p ∧
    Template.prepare "-[a]" = .ok q ∧ (pair p q).store.WellFormed ∧ (pair p q).Untried ∧
    OnTime [.vector ⟨0⟩] (pair p q) := by
  have first : ∃ p, Template.prepare "[b] & [rent]" = .ok p ∧ Fit p := by
    decide +kernel
  have second : ∃ q, Template.prepare "-[a]" = .ok q ∧ Fit q := by
    decide +kernel
  obtain ⟨p, hp, fitP⟩ := first
  obtain ⟨q, hq, fitQ⟩ := second
  have wf := pair_wellFormed p q
  have untried := pair_untried hp hq fitP fitQ
  exact ⟨p, q, hp, hq, wf, untried, resolve_onTime _ wf untried⟩

end BuildM

end Spreadsheet
