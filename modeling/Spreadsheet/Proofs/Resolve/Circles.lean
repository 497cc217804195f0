import Spreadsheet.Proofs.Resolve.Registered
import Spreadsheet.Proofs.Template.Cycles

/-!
# Producers that wait for each other

The error that reports what is left looks for a circle among names: those that a producer declares
wait on those that its keys spell.  Keys are bound through the children of the container and the
symbol table instead, where a name without the global marker also finds what is declared with it.  A
circle of producers that find each other is reported if each of them is found under a name that it
declares.
-/

namespace Spreadsheet

open Store
open Template (Key Waits findCycle)
open Relation (ReflTransGen TransGen)

/-! ## The names that wait on names -/

namespace Template

variable {edges : Waits String} {name other dep start : String} {names keys : List String}

theorem Waits.of_add : (edges.add name keys).of other =
    if other = name then some ((edges.of name).getD [] ++ keys) else edges.of other := by
  unfold add
  split
  · rename_i known
    -- The entry is changed in place, so it is still found under the same name.
    have place (entry : String × List String) :
        (if entry.1 == name then (name, entry.2 ++ keys) else entry).1 = entry.1 := by
      split
      · rename_i here
        exact (beq_iff_eq.1 here).symm
      · rfl
    have unmoved : (fun entry : String × List String => entry.1 == other) ∘
        (fun entry => if entry.1 == name then (name, entry.2 ++ keys) else entry) =
          (·.1 == other) :=
      funext fun entry => congrArg (· == other) (place entry)
    rw [of, List.find?_map, unmoved, of, of]
    cases found : edges.find? (·.1 == other) with
    | none =>
        have different : other ≠ name := by
          rintro rfl
          obtain ⟨entry, here, same⟩ := List.any_eq_true.1 known
          exact List.find?_eq_none.1 found entry here same
        simp [different]
    | some entry =>
        obtain rfl : entry.1 = other := by simpa using List.find?_some found
        by_cases same : entry.1 = name
        · subst same
          simp [found]
        · simp [same]
  · rename_i unknown
    have missing : edges.find? (·.1 == name) = none := by
      rw [List.find?_eq_none]
      exact fun entry here same => unknown (List.any_eq_true.2 ⟨entry, here, same⟩)
    rw [of, List.find?_append, of, of]
    by_cases same : other = name
    · subst same
      simp [missing]
    · simp [same, Ne.symm same]

/-- Adding what a name waits on adds these edges and no others. -/
theorem Waits.edge_add : (edges.add name keys).Edge other dep ↔
    edges.Edge other dep ∨ other = name ∧ dep ∈ keys := by
  by_cases same : other = name
  · subst same
    cases known : edges.of other <;> simp [Waits.Edge, Waits.of_add, known]
  · simp [Waits.Edge, Waits.of_add, same]

theorem Waits.edge_foldl_add :
    (names.foldl (fun edges name => edges.add name keys) edges).Edge other dep ↔
      edges.Edge other dep ∨ other ∈ names ∧ dep ∈ keys := by
  induction names generalizing edges with
  | nil => simp
  | cons name names ih =>
      rw [List.foldl_cons, ih, Waits.edge_add, List.mem_cons]
      tauto

/-- The search from a name finds something where the name leads into a circle. -/
theorem isSome_findCycle : (findCycle start edges).isSome ↔
    ∃ name, ReflTransGen edges.Edge start name ∧ TransGen edges.Edge name name := by
  have ends := searches_findCycle start edges
  cases found : findCycle start edges with
  | none =>
      rw [found] at ends
      simp only [Option.isSome_none, Bool.false_eq_true, false_iff, not_exists, not_and]
      exact fun name reach => (ends.avoids reach).2
  | some path =>
      rw [found] at ends
      exact iff_of_true rfl ends.leadsBack.circles.exists_cycle

end Template

/-! ## The producers that wait on producers -/

/-- A way from one point to another follows every relation that holds of all steps between them. -/
theorem reflTransGen_of_between {α : Type} {r r' : α → α → Prop} {a c x : α}
    (steps : ∀ x y, ReflTransGen r a x → r x y → ReflTransGen r y c → r' x y)
    (first : ReflTransGen r a x) (last : ReflTransGen r x c) : ReflTransGen r' x c := by
  induction last using ReflTransGen.head_induction_on with
  | refl => exact .refl
  | head step rest ih => exact .head (steps _ _ first step rest) (ih (first.tail step))

namespace Store

variable {s : Store} {roots : List Element} {e p q : Element} {name dep : String}
  {text : String} {keys : List String} {cycle : Option (List String)}

/-- The keys of a producer that are not bound. -/
def openKeys (s : Store) : Element → List Key
  | .expression e => s.unboundKeys e
  | .call c => s.callKeys c
  | _ => []

theorem waitsFor_eq_map (s : Store) (e : Element) : s.waitsFor e = (s.openKeys e).map (·.text) := by
  cases e <;> rfl

theorem isProducer_of_mem_openKeys {key : Key} (h : key ∈ s.openKeys e) : isProducer e = true := by
  cases e <;> first | rfl | cases h

theorem mem_pending : e ∈ s.pending roots ↔ s.Under roots e ∧ isProducer e = true := by
  simp only [pending, List.mem_flatMap, List.mem_filter, mem_subtree, Under]
  constructor
  · rintro ⟨root, hroot, reach, producer⟩
    exact ⟨⟨root, hroot, reach⟩, producer⟩
  · rintro ⟨⟨root, hroot, reach⟩, producer⟩
    exact ⟨root, hroot, reach, producer⟩

/-- Whether one producer under the roots waits for a key that is spelled like a name of another. -/
def Spells (s : Store) (roots : List Element) (p q : Element) : Prop :=
  p ∈ s.pending roots ∧ q ∈ s.pending roots ∧ ∃ name ∈ s.waitsFor p, name ∈ s.producedNames q

theorem mem_pending_of_way (here : p ∈ s.pending roots) (way : ReflTransGen (s.Spells roots) p q) :
    q ∈ s.pending roots := by
  rcases way.cases_tail with rfl | ⟨_, -, step⟩
  · exact here
  · exact step.2.1

/-- Whether a producer is the one that is reported, or has one of its names. -/
def Starts (s : Store) (roots : List Element) (p : Element) : Prop :=
  p ∈ s.pending roots ∧ ∃ first, (s.pending roots).head? = some first ∧
    (p = first ∨ ∃ name ∈ s.producedNames first, name ∈ s.producedNames p)

/-- A name waits on those that the keys of the producers with this name spell. -/
theorem edge_waits : (s.waits roots).Edge name dep ↔
    ∃ p ∈ s.pending roots, name ∈ s.producedNames p ∧ dep ∈ s.waitsFor p := by
  have all (l : List Element) (edges : Waits String) :
      (l.foldl (fun edges e =>
        (s.producedNames e).foldl (fun edges name => edges.add name (s.waitsFor e)) edges)
          edges).Edge name dep ↔
        edges.Edge name dep ∨ ∃ p ∈ l, name ∈ s.producedNames p ∧ dep ∈ s.waitsFor p := by
    induction l generalizing edges with
    | nil => simp
    | cons e l ih =>
        rw [List.foldl_cons, ih, Waits.edge_foldl_add]
        simp [or_assoc]
  rw [waits, all, or_iff_right]
  rintro ⟨next, known, -⟩
  cases known

/-- A way among the names goes from a name of one producer to a key of another, along producers of
which each waits for a name of the next. -/
theorem transGen_edge_waits : TransGen (s.waits roots).Edge name dep ↔
    ∃ p q, p ∈ s.pending roots ∧ name ∈ s.producedNames p ∧ ReflTransGen (s.Spells roots) p q ∧
      dep ∈ s.waitsFor q := by
  constructor
  · intro way
    induction way with
    | single edge =>
        obtain ⟨p, here, named, waits⟩ := edge_waits.1 edge
        exact ⟨p, p, here, named, .refl, waits⟩
    | tail _ edge ih =>
        obtain ⟨p, q, here, named, way, waits⟩ := ih
        obtain ⟨r, here', named', waits'⟩ := edge_waits.1 edge
        have step : s.Spells roots q r := ⟨mem_pending_of_way here way, here', _, waits, named'⟩
        exact ⟨p, r, here, named, way.tail step, waits'⟩
  · rintro ⟨p, q, here, named, way, waits⟩
    induction way generalizing dep with
    | refl => exact .single (edge_waits.2 ⟨p, here, named, waits⟩)
    | tail _ step ih =>
        obtain ⟨-, there, key, waits', named'⟩ := step
        exact .tail (ih waits') (edge_waits.2 ⟨_, there, named', waits⟩)

/-- The search from a name finds something where a producer with this name leads, by the spelling of
names, to one that leads back to itself. -/
theorem isSome_findCycle_waits : (findCycle name (s.waits roots)).isSome ↔
    ∃ p q, p ∈ s.pending roots ∧ name ∈ s.producedNames p ∧ ReflTransGen (s.Spells roots) p q ∧
      TransGen (s.Spells roots) q q := by
  rw [Template.isSome_findCycle]
  constructor
  · rintro ⟨on, way, circle⟩
    obtain ⟨q, r, here, named, round, waits⟩ := transGen_edge_waits.1 circle
    have last : s.Spells roots r q := ⟨mem_pending_of_way here round, here, on, waits, named⟩
    have circle : TransGen (s.Spells roots) q q := .tail' round last
    -- The name is one of the circle, or that of a producer further up.
    rcases Relation.reflTransGen_iff_eq_or_transGen.1 way with rfl | way
    · exact ⟨q, q, here, named, .refl, circle⟩
    · obtain ⟨p, r', here', named', way, waits'⟩ := transGen_edge_waits.1 way
      have step : s.Spells roots r' q := ⟨mem_pending_of_way here' way, here, on, waits', named⟩
      exact ⟨p, q, here', named', way.tail step, circle⟩
  · rintro ⟨p, q, here, named, way, circle⟩
    obtain ⟨r, round, last⟩ := TransGen.tail'_iff.1 circle
    obtain ⟨-, there, on, waits, named'⟩ := last
    exact ⟨on, (transGen_edge_waits.2 ⟨p, r, here, named, way.trans round, waits⟩).to_reflTransGen,
      transGen_edge_waits.2 ⟨q, r, there, named', round, waits⟩⟩

theorem unresolvedError_cycle
    (h : s.unresolvedError roots = .unresolvedReference text keys cycle) :
    cycle.isSome ↔ ∃ first, (s.pending roots).head? = some first ∧
      ∃ name ∈ s.producedNames first ++ s.waitsFor first,
        (findCycle name (s.waits roots)).isSome := by
  unfold unresolvedError at h
  split at h
  · rename_i none
    cases h
    simp [none]
  · rename_i first rest pending
    cases h
    simp only [pending, List.findSome?_isSome_iff, List.head?_cons, Option.some_inj,
      exists_eq_left']

/-- The report has a circle where the reported producer, or one with a name of it, leads by the
spelling of names to a producer that leads back to itself. -/
theorem unresolvedError_cycle_iff
    (h : s.unresolvedError roots = .unresolvedReference text keys cycle) :
    cycle.isSome ↔ ∃ p q, s.Starts roots p ∧ ReflTransGen (s.Spells roots) p q ∧
      TransGen (s.Spells roots) q q := by
  rw [unresolvedError_cycle h]
  simp only [isSome_findCycle_waits]
  constructor
  · rintro ⟨first, isFirst, name, starts, p, q, here, named, way, circle⟩
    have pending : first ∈ s.pending roots := List.mem_of_head? isFirst
    rcases List.mem_append.1 starts with own | waits
    · exact ⟨p, q, ⟨here, first, isFirst, .inr ⟨name, own, named⟩⟩, way, circle⟩
    · exact ⟨first, q, ⟨pending, first, isFirst, .inl rfl⟩,
        .head ⟨pending, here, name, waits, named⟩ way, circle⟩
  · rintro ⟨p, q, ⟨here, first, isFirst, rfl | ⟨name, own, named⟩⟩, way, circle⟩
    · -- The search starts with the keys of the producer, not with the producer: go round once.
      obtain ⟨p', ⟨-, there, name, waits, named⟩, way⟩ :=
        TransGen.head'_iff.1 (TransGen.trans_right way circle)
      exact ⟨p, isFirst, name, List.mem_append_right _ waits, p', q, there, named, way, circle⟩
    · exact ⟨first, isFirst, name, List.mem_append_left _ own, p, q, here, named, way, circle⟩

end Store

namespace Build

variable {b : Build} {roots : List Element} {p q : Element} {name : String}

/-- Whether a producer is found under a name for which another one waits, from the container in
which that one stands. -/
def AwaitsBy (b : Build) (roots : List Element) (name : String) (p q : Element) : Prop :=
  q ∈ b.store.pending roots ∧ .name name ∈ b.store.openKeys p ∧
    ∃ container, b.store.Under roots container ∧ p ∈ b.store.children container ∧
      b.find? (some container) (.name name) = some q

/-- Whether a producer waits for another one that it finds under some name. -/
def Awaits (b : Build) (roots : List Element) (p q : Element) : Prop :=
  ∃ name, b.AwaitsBy roots name p q

theorem AwaitsBy.spells (h : b.AwaitsBy roots name p q) (named : name ∈ b.store.producedNames q) :
    b.store.Spells roots p q := by
  obtain ⟨there, waits, container, under, below, -⟩ := h
  have here := mem_pending.2 ⟨under.child below, isProducer_of_mem_openKeys waits⟩
  refine ⟨here, there, name, ?_, named⟩
  rw [waitsFor_eq_map]
  exact List.mem_map.2 ⟨.name name, waits, rfl⟩

/-- A name under which a producer is found is one that it declares, as it is or with the global
marker. -/
theorem AwaitsBy.declares (h : b.AwaitsBy roots name p q) (declares : b.Declares) :
    name ∈ b.store.producedNames q ∨ b.store.DeclaresMarked q name := by
  obtain ⟨there, -, container, -, -, found⟩ := h
  exact declares.of_find? found (mem_pending.1 there).2

/-- A circle of producers that find each other is one of names if all of them, and those on the way
to the circle, are found under names that they declare. -/
theorem spells_of_awaits {first : Element} (way : ReflTransGen (b.Awaits roots) first q)
    (circle : TransGen (b.Awaits roots) q q)
    (declared : ∀ x y name, ReflTransGen (b.Awaits roots) first x → b.AwaitsBy roots name x y →
      ReflTransGen (b.Awaits roots) y q → name ∈ b.store.producedNames y) :
    ReflTransGen (b.store.Spells roots) first q ∧ TransGen (b.store.Spells roots) q q := by
  have steps : ∀ x y, ReflTransGen (b.Awaits roots) first x → b.Awaits roots x y →
      ReflTransGen (b.Awaits roots) y q → b.store.Spells roots x y := by
    rintro x y before ⟨name, awaits⟩ after
    exact awaits.spells (declared x y name before awaits after)
  obtain ⟨next, step, back⟩ := TransGen.head'_iff.1 circle
  exact ⟨reflTransGen_of_between steps .refl way,
    .head' (steps q next way step back) (reflTransGen_of_between steps (way.tail step) back)⟩

end Build

namespace BuildM

open Build

variable {b b' : Build} {roots : List Element} {text : String} {keys : List String}
  {cycle : Option (List String)}

/-- A report on unresolved references is made in the build that is left, which keeps to every law
whose errors are not premature. -/
theorem Law.of_unresolved {I : Build → Prop} {R : Build → Build → Prop}
    (law : Law roots I R (fun e => e.isPremature = false)) (start : I b)
    (failed : (resolve roots b : Except SheetError Unit × Build) =
      (.error (.unresolvedReference text keys cycle), b')) :
    I b' ∧ b'.store.unresolvedError roots = .unresolvedReference text keys cycle := by
  have failed : (resolveWithin roots (max b.config.maxResolveAttempts 1) none b :
      Except SheetError Unit × Build) =
        (.error (.unresolvedReference text keys cycle), b') := failed
  obtain ⟨n, m, run, late | report⟩ := resolveWithin_error (congrArg Prod.fst failed)
  · have timely := (law.passStates (fun _ hx => hx) (law.passes start run)).fails _ late
    cases timely
  · obtain ⟨same, rfl⟩ := Prod.mk.inj (failed.symm.trans report)
    exact ⟨law.passes start run, (Except.error.inj same).symm⟩

/-- The report on unresolved references has a circle exactly where the producer that is reported, or
one that shares a name with it, leads by the spelling of names to a producer that leads back to
itself.  If the producer that is reported leads into a circle of producers that find each other, the
report has a circle, unless one of these is found under a name that it does not declare; where all
entries of the symbol table come from declared names, that is a name that it declares with the global
marker. -/
theorem resolve_reports_circles (sound : b.Sound)
    (failed : (resolve roots b : Except SheetError Unit × Build) =
      (.error (.unresolvedReference text keys cycle), b')) :
    (cycle.isSome ↔ ∃ p q, b'.store.Starts roots p ∧ ReflTransGen (b'.store.Spells roots) p q ∧
      TransGen (b'.store.Spells roots) q q) ∧
    ∀ first q, (b'.store.pending roots).head? = some first →
      ReflTransGen (b'.Awaits roots) first q → TransGen (b'.Awaits roots) q q →
        cycle.isSome ∨ ∃ p p' name, ReflTransGen (b'.Awaits roots) first p ∧
          b'.AwaitsBy roots name p p' ∧ ReflTransGen (b'.Awaits roots) p' q ∧
          name ∉ b'.store.producedNames p' ∧
          (b.Declares → b'.store.DeclaresMarked p' name) := by
  obtain ⟨-, report⟩ := (sound_law roots).of_unresolved sound failed
  have exactly := unresolvedError_cycle_iff report
  refine ⟨exactly, fun first q isFirst way circle => ?_⟩
  by_cases declared : ∀ x y name, ReflTransGen (b'.Awaits roots) first x →
      b'.AwaitsBy roots name x y → ReflTransGen (b'.Awaits roots) y q →
        name ∈ b'.store.producedNames y
  · obtain ⟨way, circle⟩ := spells_of_awaits way circle declared
    have starts : b'.store.Starts roots first :=
      ⟨List.mem_of_head? isFirst, first, isFirst, .inl rfl⟩
    exact .inl (exactly.2 ⟨first, q, starts, way, circle⟩)
  · push Not at declared
    obtain ⟨p, p', name, before, awaits, after, undeclared⟩ := declared
    refine .inr ⟨p, p', name, before, awaits, after, undeclared, fun declares => ?_⟩
    obtain ⟨⟨-, declares⟩, -⟩ := (declares_law roots).of_unresolved ⟨sound, declares⟩ failed
    exact (awaits.declares declares).resolve_left undeclared

end BuildM

/-! ## Two formulas that wait for each other -/

/-- A column with a formula that waits for `b` and another, with the id `b`, that waits for `a`. -/
def Build.ring (id : String) : Build where
  store :=
    { vectors := ⟨#[{
        orientation := .vertical
        children := [.expression ⟨0⟩, .expression ⟨1⟩] }]⟩
      expressions := ⟨#[
        { template :=
            { source := "-[b]"
              expanded := "-refs[\"b\"]"
              keys := [.name "b"]
              isRef := false
              ast := .unary .neg (.ref (.name "b")) }
          declared.id := some id },
        { template :=
            { source := "-[a]"
              expanded := "-refs[\"a\"]"
              keys := [.name "a"]
              isRef := false
              ast := .unary .neg (.ref (.name "a")) }
          declared.id := some "b" }]⟩ }
  symbols :=
    { ids := (({} : Namespace).put id (some (.expression ⟨0⟩))).put "b" (some (.expression ⟨1⟩)) }
  pins := [.vector ⟨0⟩]

namespace BuildM

open Build

theorem ring_wellFormed (id : String) : (ring id).store.WellFormed := by
  refine wellFormed_of_falling (fun e => e.isContainer.toNat) ?_ ?_
  · intro x hx child below
    obtain rfl := List.mem_singleton.1 hx
    have below : child ∈ [Element.expression ⟨0⟩, .expression ⟨1⟩] := below
    rcases List.mem_pair.1 below with rfl | rfl
    · exact ⟨by decide, trivial⟩
    · exact ⟨by decide, trivial⟩
  · exact fun i inside => absurd inside (Nat.not_lt_zero i)

theorem ring_sound (id : String) : (ring id).Sound where
  wf := ring_wellFormed id
  bound x entry hentry := by
    rcases x with ⟨_ | _ | i⟩ <;> cases hentry
  refs x key hkey := by
    rcases x with ⟨_ | _ | i⟩
    · exact hkey
    · exact hkey
    · cases hkey

theorem ring_declares : (ring "G::a").Declares := by
  intro shelf name node entry _
  cases shelf with
  | localIds =>
      have entry : (name, some node) ∈ [("b", some (Node.expression ⟨1⟩))] := entry
      cases List.mem_singleton.1 entry
      exact ⟨"b", List.mem_singleton.2 rfl, .inl rfl⟩
  | globalIds =>
      have entry : (name, some node) ∈ [("a", some (Node.expression ⟨0⟩))] := entry
      cases List.mem_singleton.1 entry
      exact ⟨"G::a", List.mem_singleton.2 rfl, .inl rfl⟩
  | _ => cases entry

/-- With a global id, too, the two formulas find each other. -/
theorem ring_circle : TransGen ((ring "G::a").Awaits [.vector ⟨0⟩])
    (.expression ⟨0⟩) (.expression ⟨0⟩) := by
  have both : (ring "G::a").store.pending [.vector ⟨0⟩] = [.expression ⟨0⟩, .expression ⟨1⟩] := rfl
  have root : (ring "G::a").store.Under [.vector ⟨0⟩] (.vector ⟨0⟩) := ⟨_, by simp, .root⟩
  have first : (ring "G::a").AwaitsBy [.vector ⟨0⟩] "b" (.expression ⟨0⟩) (.expression ⟨1⟩) :=
    ⟨by simp [both], List.mem_singleton.2 rfl, .vector ⟨0⟩, root, List.mem_pair.2 (.inl rfl), rfl⟩
  have second : (ring "G::a").AwaitsBy [.vector ⟨0⟩] "a" (.expression ⟨1⟩) (.expression ⟨0⟩) :=
    ⟨by simp [both], List.mem_singleton.2 rfl, .vector ⟨0⟩, root, List.mem_pair.2 (.inr rfl), rfl⟩
  exact .head ⟨_, first⟩ (.single ⟨_, second⟩)

/-- With local ids the circle is reported; where one of the two has a global id it is not, since the
other one asks for it without the marker. -/
theorem resolve_reports_circles_ring :
    ((ring "a").Sound ∧ (resolve [.vector ⟨0⟩] (ring "a") : Except SheetError Unit × Build) =
      (.error (.unresolvedReference "-[b]" ["b"] (some ["a", "b", "a"])), ring "a") ∧
      ∃ p q, (ring "a").store.Starts [.vector ⟨0⟩] p ∧
        ReflTransGen ((ring "a").store.Spells [.vector ⟨0⟩]) p q ∧
        TransGen ((ring "a").store.Spells [.vector ⟨0⟩]) q q) ∧
    ((ring "G::a").Sound ∧ (ring "G::a").Declares ∧
      ∃ p name, (ring "G::a").store.DeclaresMarked p name) := by
  have sound := ring_sound "a"
  have failed : (resolve [.vector ⟨0⟩] (ring "a") : Except SheetError Unit × Build) =
      (.error (.unresolvedReference "-[b]" ["b"] (some ["a", "b", "a"])), ring "a") := rfl
  have missed : (resolve [.vector ⟨0⟩] (ring "G::a") : Except SheetError Unit × Build) =
      (.error (.unresolvedReference "-[b]" ["b"] none), ring "G::a") := rfl
  refine ⟨⟨sound, failed, (resolve_reports_circles sound failed).1.1 rfl⟩, ring_sound _,
    ring_declares, ?_⟩
  rcases (resolve_reports_circles (ring_sound _) missed).2 _ _ rfl .refl ring_circle with
    found | ⟨-, p, name, -, -, -, -, marked⟩
  · cases found
  · exact ⟨p, name, marked ring_declares⟩

/-- Two formulas that find each other are reported as unresolved references without a circle. -/
theorem ring_unreported :
    (resolve [.vector ⟨0⟩] (ring "G::a") : Except SheetError Unit × Build) =
      (.error (.unresolvedReference "-[b]" ["b"] none), ring "G::a") ∧
    ((ring "G::a").store.pending [.vector ⟨0⟩]).head? = some (.expression ⟨0⟩) ∧
    TransGen ((ring "G::a").Awaits [.vector ⟨0⟩]) (.expression ⟨0⟩) (.expression ⟨0⟩) :=
  ⟨rfl, rfl, ring_circle⟩

end BuildM

end Spreadsheet
