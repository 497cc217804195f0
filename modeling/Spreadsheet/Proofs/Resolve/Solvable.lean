import Spreadsheet.Proofs.Resolve.Settled

/-!
# Which trees can be resolved

As long as no expression of linked trees waits for itself, every pass replaces at least one expression,
so that as many passes as there are expressions replace them all.  An expression that waits for itself,
or for one that does, is never replaced, and resolving reports an unresolved reference.
-/

namespace Spreadsheet

open Store

/-! ## Cycles -/

namespace Store

variable {s : Store} {roots : List Element}

theorem grounded_of_not_under {e : ExpressionId} (h : ¬s.Under roots (.expression e)) :
    s.Grounded roots e :=
  Acc.intro e fun _ uses => absurd uses.1 h

/-- All expressions are grounded if and only if none uses itself, directly or through others. -/
theorem Acyclic.grounded_iff (h : s.Acyclic) :
    (∀ e, s.Grounded roots e) ↔ ∀ e, ¬Relation.TransGen (s.Uses roots) e e := by
  constructor
  · intro grounded e cycle
    have wellFounded : WellFounded fun f e => s.Uses roots e f := ⟨grounded⟩
    exact wellFounded.transGen.irrefl.irrefl e (Relation.transGen_swap.2 cycle)
  · intro acyclic
    let Above : ExpressionId → ExpressionId → Prop := fun f e => Relation.TransGen (s.Uses roots) e f
    have order : IsStrictOrder ExpressionId Above :=
      { irrefl := acyclic
        trans := fun _ _ _ first second => second.trans first }
    have finite : (s.expressionsUnder roots : Set ExpressionId).WellFoundedOn Above :=
      (Finset.finite_toSet _).wellFoundedOn
    intro e
    refine Subrelation.accessible ?_ ((Set.wellFoundedOn_iff.1 finite).apply e)
    intro f e uses
    exact ⟨.single uses, h.mem_expressionsUnder.2 uses.2.1, h.mem_expressionsUnder.2 uses.1⟩

end Store

namespace Build

variable {b₀ b b' : Build} {roots : List Element} {e : ExpressionId} {done : Bool}

/-- Among expressions that are all grounded, one need not wait. -/
theorem exists_not_waits (grounded : b₀.store.Grounded roots e)
    (under : b.store.Under roots (.expression e)) :
    ∃ g, b.store.Under roots (.expression g) ∧ ¬Waits b₀ roots b g := by
  induction grounded with
  | intro e _ ih =>
      by_cases waits : Waits b₀ roots b e
      · obtain ⟨f, uses, under⟩ := waits
        exact ih f uses under
      · exact ⟨e, under, waits⟩

theorem Settles.expressions_subset (h : Settles b₀ roots b roots done b') (wf : b.store.WellFormed) :
    b'.store.expressionsUnder roots ⊆ b.store.expressionsUnder roots := by
  intro e he
  have under := h.follows.wf.acyclic.mem_expressionsUnder.1 he
  exact wf.acyclic.mem_expressionsUnder.2 (h.shrinks.under under (by simp))

theorem Settles.not_waits (h : Settles b₀ roots b roots done b')
    (under : b'.store.Under roots (.expression e)) : done = false ∧ Waits b₀ roots b e := by
  obtain ⟨root, hroot, reach⟩ := under
  exact h.left root hroot e reach

/-- A pass after which something is left replaces an expression, and has another one to wait. -/
theorem Settles.card_lt (h : Settles b₀ roots b roots false b') (wf : b.store.WellFormed)
    (grounded : ∀ e, b₀.store.Grounded roots e) :
    (b'.store.expressionsUnder roots).card < (b.store.expressionsUnder roots).card ∧
      1 < (b.store.expressionsUnder roots).card := by
  have mem : ∀ {e}, e ∈ b.store.expressionsUnder roots ↔ b.store.Under roots (.expression e) :=
    wf.acyclic.mem_expressionsUnder
  obtain ⟨e, under, waits⟩ := h.blocked rfl
  obtain ⟨g, under', ready⟩ := exists_not_waits (grounded e) under
  constructor
  · refine Finset.card_lt_card (Finset.ssubset_iff_of_subset (h.expressions_subset wf) |>.2 ?_)
    refine ⟨g, mem.2 under', fun still => ready ?_⟩
    exact (h.not_waits (h.follows.wf.acyclic.mem_expressionsUnder.1 still)).2
  · refine Finset.one_lt_card.2 ⟨e, mem.2 under, g, mem.2 under', ?_⟩
    rintro rfl
    exact ready waits

end Build

namespace BuildM

open Build

variable {b₀ b : Build} {roots : List Element} {e : ExpressionId}

/-- As many passes as there are expressions are enough when all are grounded. -/
theorem resolveWithin_grounded (h : Follows b₀ roots b)
    (grounded : ∀ e, b₀.store.Grounded roots e) {attempts : Nat} {last : Option Nat}
    (enough : (b.store.expressionsUnder roots).card ≤ attempts) (positive : 0 < attempts)
    (known : ∀ weight ∈ last, weight = b.store.pendingWeight roots) :
    ∃ b', Runs (resolveWithin roots attempts last) b () b' := by
  induction attempts generalizing b last with
  | zero => omega
  | succ attempts ih =>
      obtain ⟨done, m, run, settles⟩ := passAll_settles h fun _ hx => hx
      have step := resolveWithin_succ roots attempts last b
      rw [show (passAll roots b : Except SheetError Bool × Build) = (.ok done, m) from run] at step
      cases done with
      | true => exact ⟨m, step⟩
      | false =>
          obtain ⟨fewer, several⟩ := settles.card_lt h.wf grounded
          have falls : m.store.pendingWeight roots < b.store.pendingWeight roots := by
            rcases passAll_cases h.wf h.inStore run with rfl | ⟨-, falls⟩
            · exact absurd fewer (lt_irrefl _)
            · exact falls
          have goesOn : last.any (· ≤ m.store.pendingWeight roots) = false := by
            rw [Option.any_eq_false]
            intro weight hweight
            rw [known weight hweight]
            simpa using falls
          obtain ⟨b', further⟩ := ih settles.follows (by omega) (by omega)
            fun weight hweight => (Option.some.inj hweight).symm
          refine ⟨b', ?_⟩
          simp only [goesOn, Bool.false_eq_true, if_false] at step
          exact step.trans further

theorem unresolvedError_eq (s : Store) (roots : List Element) :
    ∃ text keys cycle, s.unresolvedError roots = .unresolvedReference text keys cycle := by
  unfold unresolvedError
  split
  · exact ⟨_, _, _, rfl⟩
  · exact ⟨_, _, _, rfl⟩

/-- No number of passes is enough when an expression is not grounded. -/
theorem resolveWithin_not_grounded (h : Follows b₀ roots b)
    (under : b₀.store.Under roots (.expression e)) (stuck : ¬b₀.store.Grounded roots e)
    (attempts : Nat) (last : Option Nat) : ∃ text keys cycle,
      (resolveWithin roots attempts last b : Except SheetError Unit × Build).1 =
        .error (.unresolvedReference text keys cycle) := by
  induction attempts generalizing b last with
  | zero =>
      obtain ⟨text, keys, cycle, reported⟩ := unresolvedError_eq b.store roots
      exact ⟨text, keys, cycle, congrArg Except.error reported⟩
  | succ attempts ih =>
      obtain ⟨done, m, run, settles⟩ := passAll_settles h fun _ hx => hx
      obtain ⟨rfl, -⟩ := settles.not_waits (settles.follows.stays e under stuck)
      have step := resolveWithin_succ roots attempts last b
      rw [show (passAll roots b : Except SheetError Bool × Build) = (.ok false, m) from run] at step
      simp only at step
      rw [step]
      split
      · obtain ⟨text, keys, cycle, reported⟩ := unresolvedError_eq m.store roots
        exact ⟨text, keys, cycle, congrArg Except.error reported⟩
      · exact ih settles.follows _

/-- With at least as many passes as there are expressions, resolving linked trees succeeds if and only
if no expression uses itself, directly or through others.  Otherwise it reports an unresolved
reference. -/
theorem resolve_linked (h : b.Linked roots)
    (enough : (b.store.expressionsUnder roots).card ≤ b.config.maxResolveAttempts) :
    ((resolve roots b : Except SheetError Unit × Build).1 = .ok () ↔
      ∀ e, ¬Relation.TransGen (b.store.Uses roots) e e) ∧
    ((∃ e, Relation.TransGen (b.store.Uses roots) e e) → ∃ text keys cycle,
      (resolve roots b : Except SheetError Unit × Build).1 =
        .error (.unresolvedReference text keys cycle)) := by
  have start : (resolve roots b : Except SheetError Unit × Build) =
      resolveWithin roots (max b.config.maxResolveAttempts 1) none b := rfl
  have grounded := @Acyclic.grounded_iff _ roots h.wf.acyclic
  rw [start, ← grounded]
  by_cases all : ∀ e, b.store.Grounded roots e
  · have unknown : ∀ weight ∈ (none : Option Nat), weight = b.store.pendingWeight roots := by simp
    obtain ⟨b', run⟩ := resolveWithin_grounded h.follows all (enough.trans (le_max_left _ 1))
      (by omega) unknown
    rw [show (resolveWithin roots _ none b : Except SheetError Unit × Build) = (.ok (), b') from run]
    refine ⟨iff_of_true rfl all, ?_⟩
    rintro ⟨e, cycle⟩
    exact absurd cycle (grounded.1 all e)
  · obtain ⟨e, stuck⟩ := not_forall.1 all
    have under : b.store.Under roots (.expression e) := by
      by_contra outside
      exact stuck (grounded_of_not_under outside)
    obtain ⟨text, keys, cycle, failed⟩ := resolveWithin_not_grounded h.follows under stuck
      (max b.config.maxResolveAttempts 1) none
    rw [failed]
    exact ⟨iff_of_false (by simp) all, fun _ => ⟨text, keys, cycle, rfl⟩⟩

/-! ## Two formulas -/

/-- A column with a formula that has the id `a`, one that has the id `b`, and the cell `rent`. -/
def pair (p q : Template.Prepared) : Build where
  store :=
    { cells := ⟨#[{ value := .text "Rent", id := some "rent" }]⟩
      vectors := ⟨#[{
        orientation := .vertical
        children := [.expression ⟨0⟩, .expression ⟨1⟩, .cell ⟨0⟩] }]⟩
      expressions := ⟨#[
        { template := p, declared.id := some "a" },
        { template := q, declared.id := some "b" }]⟩ }
  symbols := { ids := { localEntries :=
    [("a", some (.expression ⟨0⟩)), ("b", some (.expression ⟨1⟩)), ("rent", some (.cell ⟨0⟩))] } }
  pins := [.vector ⟨0⟩]

variable {p q : Template.Prepared}

/-- What the templates of a pair must have for the pair to be linked. -/
def Fit (p : Template.Prepared) : Prop :=
  p.ast.Every Formula.Composes ∧
    ∀ key ∈ p.keys, key ∈ [Template.Key.name "a", .name "b", .name "rent"]

instance (p : Template.Prepared) : Decidable (Fit p) :=
  inferInstanceAs (Decidable (_ ∧ _))

theorem pair_wellFormed (p q : Template.Prepared) : (pair p q).store.WellFormed := by
  refine wellFormed_of_falling (fun e => e.isContainer.toNat) ?_ ?_
  · intro x hx child below
    obtain rfl := List.mem_singleton.1 hx
    have below : child ∈ [Element.expression ⟨0⟩, .expression ⟨1⟩, .cell ⟨0⟩] := below
    simp only [List.mem_cons, List.not_mem_nil, or_false] at below
    rcases below with rfl | rfl | rfl
    · exact ⟨by decide, trivial⟩
    · exact ⟨by decide, trivial⟩
    · exact ⟨by decide, Nat.zero_lt_one⟩
  · intro i inside
    obtain rfl := Nat.lt_one_iff.1 inside
    exact ⟨le_refl 1, le_refl 1⟩

theorem pair_under {x : Element} : (pair p q).store.Under [.vector ⟨0⟩] x ↔
    x = .vector ⟨0⟩ ∨ x = .expression ⟨0⟩ ∨ x = .expression ⟨1⟩ ∨ x = .cell ⟨0⟩ := by
  have all : (pair p q).store.subtree (.vector ⟨0⟩) =
    [.vector ⟨0⟩, .expression ⟨0⟩, .expression ⟨1⟩, .cell ⟨0⟩] := rfl
  simp only [Under, List.mem_singleton, exists_eq_left]
  rw [← (pair_wellFormed p q).acyclic.mem_subtree, all]
  simp

theorem pair_owns {name : String} {x : Element}
    (h : (name = "a" ∧ x = .expression ⟨0⟩) ∨ (name = "b" ∧ x = .expression ⟨1⟩) ∨
      (name = "rent" ∧ x = .cell ⟨0⟩)) : (pair p q).Owns [.vector ⟨0⟩] name x := by
  have only : ∀ y, (pair p q).store.Under [.vector ⟨0⟩] y → y.isContainer = false →
      (pair p q).store.id? y = some name → y = x := by
    intro y under leaf id
    rcases pair_under.1 under with rfl | rfl | rfl | rfl
    · cases leaf
    all_goals
      rcases h with ⟨rfl, rfl⟩ | ⟨rfl, rfl⟩ | ⟨rfl, rfl⟩ <;>
        first | rfl | exact absurd (Option.some.inj id) (by decide)
  rcases h with ⟨rfl, rfl⟩ | ⟨rfl, rfl⟩ | ⟨rfl, rfl⟩
  · exact ⟨pair_under.2 (by simp), rfl, rfl, only, by decide, rfl⟩
  · exact ⟨pair_under.2 (by simp), rfl, rfl, only, by decide, rfl⟩
  · exact ⟨pair_under.2 (by simp), rfl, rfl, only, by decide, rfl⟩

theorem pair_linked {first second : String} (hp : Template.prepare first = .ok p)
    (hq : Template.prepare second = .ok q) (fitP : Fit p) (fitQ : Fit q) :
    (pair p q).Linked [.vector ⟨0⟩] where
  wf := pair_wellFormed p q
  inStore root hroot := by
    obtain rfl := List.mem_singleton.1 hroot
    exact Nat.zero_lt_one
  pinned root hroot n hn := by
    obtain rfl := List.mem_singleton.1 hroot
    cases hn
    exact List.mem_singleton_self _
  alive x _ n _ := by cases n <;> rfl
  existing c out := by cases out
  tops root hroot := by
    obtain rfl := List.mem_singleton.1 hroot
    rfl
  sits parent child under below producer := by
    rcases pair_under.1 under with rfl | rfl | rfl | rfl
    · have below : child ∈ [Element.expression ⟨0⟩, .expression ⟨1⟩, .cell ⟨0⟩] := below
      simp only [List.mem_cons, List.not_mem_nil, or_false] at below
      rcases below with rfl | rfl | rfl
      · exact ⟨⟨0⟩, ⟨0⟩, rfl, rfl⟩
      · exact ⟨⟨0⟩, ⟨1⟩, rfl, rfl⟩
      · cases producer
    all_goals cases below
  flat v child under below := by
    have inside : (pair p q).store.Under [.vector ⟨0⟩] child := under.child below
    rcases pair_under.1 under with same | same | same | same <;> cases same
    have below : child ∈ [Element.expression ⟨0⟩, .expression ⟨1⟩, .cell ⟨0⟩] := below
    simp only [List.mem_cons, List.not_mem_nil, or_false] at below
    rcases below with rfl | rfl | rfl <;> rfl
  headers x under := by
    rcases pair_under.1 under with rfl | rfl | rfl | rfl <;> rfl
  templates e under := by
    rcases pair_under.1 under with same | same | same | same <;> cases same
    · exact ⟨⟨first, hp⟩, fitP.1⟩
    · exact ⟨⟨second, hq⟩, fitQ.1⟩
  ids e under := by
    rcases pair_under.1 under with same | same | same | same <;> cases same
    · intro id hid
      cases hid
      decide
    · intro id hid
      cases hid
      decide
  keys e under key hkey := by
    have named : key ∈ [Template.Key.name "a", .name "b", .name "rent"] := by
      rcases pair_under.1 under with same | same | same | same <;> cases same
      · exact fitP.2 key hkey
      · exact fitQ.2 key hkey
    simp only [List.mem_cons, List.not_mem_nil, or_false] at named
    rcases named with rfl | rfl | rfl
    · exact ⟨_, _, rfl, pair_owns (.inl ⟨rfl, rfl⟩)⟩
    · exact ⟨_, _, rfl, pair_owns (.inr (.inl ⟨rfl, rfl⟩))⟩
    · exact ⟨_, _, rfl, pair_owns (.inr (.inr ⟨rfl, rfl⟩))⟩
  bound e under key x found := by
    rcases pair_under.1 under with same | same | same | same <;> cases same <;> cases found

theorem pair_enough : ((pair p q).store.expressionsUnder [.vector ⟨0⟩]).card ≤
    (pair p q).config.maxResolveAttempts := by
  have all : (pair p q).store.expressionsUnder [.vector ⟨0⟩] = {⟨0⟩, ⟨1⟩} := rfl
  rw [all]
  exact (by decide : ({⟨0⟩, ⟨1⟩} : Finset ExpressionId).card ≤ 30)

/-- A formula that uses one over a cell is resolved, and one that uses a formula over it is not. -/
theorem resolve_linked_pair : ∃ p q r,
    Template.prepare "[b] & [rent]" = .ok p ∧ Template.prepare "[rent] & [rent]" = .ok q ∧
    Template.prepare "-[a]" = .ok r ∧
    (pair p q).Linked [.vector ⟨0⟩] ∧ (pair p r).Linked [.vector ⟨0⟩] ∧
    (resolve [.vector ⟨0⟩] (pair p q) : Except SheetError Unit × Build).1 = .ok () ∧
    ∃ text keys cycle, (resolve [.vector ⟨0⟩] (pair p r) : Except SheetError Unit × Build).1 =
      .error (.unresolvedReference text keys cycle) := by
  have first : ∃ p, Template.prepare "[b] & [rent]" = .ok p ∧ Fit p ∧
      p.keys = [.name "b", .name "rent"] := by
    decide +kernel
  have second : ∃ q, Template.prepare "[rent] & [rent]" = .ok q ∧ Fit q ∧
      q.keys = [.name "rent"] := by
    decide +kernel
  have third : ∃ r, Template.prepare "-[a]" = .ok r ∧ Fit r ∧ r.keys = [.name "a"] := by
    decide +kernel
  obtain ⟨p, hp, fitP, keysP⟩ := first
  obtain ⟨q, hq, fitQ, keysQ⟩ := second
  obtain ⟨r, hr, fitR, keysR⟩ := third
  have linkedQ := pair_linked hp hq fitP fitQ
  have linkedR := pair_linked hp hr fitP fitR
  refine ⟨p, q, r, hp, hq, hr, linkedQ, linkedR, ?_, ?_⟩
  · refine (resolve_linked linkedQ pair_enough).1.2 fun e cycle => ?_
    -- The only use is that of the second formula by the first.
    have use : ∀ e f, (pair p q).store.Uses [.vector ⟨0⟩] e f → e = ⟨0⟩ ∧ f = ⟨1⟩ := by
      rintro e f ⟨underE, underF, name, hkey, id⟩
      rcases pair_under.1 underF with same | same | same | same <;> cases same
      · obtain rfl : "a" = name := Option.some.inj id
        rcases pair_under.1 underE with same | same | same | same <;> cases same
        · rw [show ((pair p q).store.expression ⟨0⟩).template.keys = p.keys from rfl, keysP] at hkey
          exact absurd hkey (by decide)
        · rw [show ((pair p q).store.expression ⟨1⟩).template.keys = q.keys from rfl, keysQ] at hkey
          exact absurd hkey (by decide)
      · obtain rfl : "b" = name := Option.some.inj id
        rcases pair_under.1 underE with same | same | same | same <;> cases same
        · exact ⟨rfl, rfl⟩
        · rw [show ((pair p q).store.expression ⟨1⟩).template.keys = q.keys from rfl, keysQ] at hkey
          exact absurd hkey (by decide)
    obtain ⟨_, firstUse, -⟩ := Relation.TransGen.head'_iff.1 cycle
    obtain ⟨_, -, lastUse⟩ := Relation.TransGen.tail'_iff.1 cycle
    have here := (use _ _ firstUse).1.symm.trans (use _ _ lastUse).2
    cases here
  · refine (resolve_linked linkedR pair_enough).2 ⟨⟨0⟩, ?_⟩
    have forward : (pair p r).store.Uses [.vector ⟨0⟩] ⟨0⟩ ⟨1⟩ := by
      refine ⟨pair_under.2 (by simp), pair_under.2 (by simp), "b", ?_, rfl⟩
      rw [show ((pair p r).store.expression ⟨0⟩).template.keys = p.keys from rfl, keysP]
      decide
    have back : (pair p r).store.Uses [.vector ⟨0⟩] ⟨1⟩ ⟨0⟩ := by
      refine ⟨pair_under.2 (by simp), pair_under.2 (by simp), "a", ?_, rfl⟩
      rw [show ((pair p r).store.expression ⟨1⟩).template.keys = r.keys from rfl, keysR]
      decide
    exact .head forward (.single back)

end BuildM

end Spreadsheet
