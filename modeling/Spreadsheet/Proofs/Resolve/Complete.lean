import Spreadsheet.Proofs.Resolve.Bound
import Spreadsheet.Proofs.Resolve.Intact
import Spreadsheet.Proofs.Resolve.Stalled

/-!
# What resolving leaves

A pass goes all the way down the trees that it starts with, and what it puts in the place of producers
holds none.  So where a pass reports that nothing is pending, no producer is left; and resolving
succeeds with such a pass only.
-/

namespace Spreadsheet

open Store

namespace Store

variable {s t : Store} {e : Element}

theorem OnlyReplaces.calm (h : OnlyReplaces s t) (wf : s.WellFormed) (acyclic : t.Acyclic)
    (calm : s.isPending e = false) : t.isPending e = false := by
  refine h.toBrings.calm wf acyclic (fun x old free => ?_) calm
  -- No child is a producer, so all of them are kept.
  have kept := h.children x old
  rw [← List.append_nil (s.children x)] at kept
  obtain ⟨l, same, none⟩ := kept.of_append fun z hz =>
    wf.acyclic.not_isProducer (wf.acyclic.isPending_child free hz)
  cases none
  rw [same, List.append_nil]

theorem Substitutes.mem_cases {l l' : List Element} (h : Substitutes s l l') (he : e ∈ l') :
    e ∈ l ∨ ¬s.InStore e := by
  induction h with
  | nil => exact .inl he
  | kept others ih =>
      rcases List.mem_cons.1 he with rfl | he
      · exact .inl (List.mem_cons_self ..)
      · exact (ih he).imp (List.mem_cons_of_mem _) id
  | replaced producer new others ih =>
      rcases List.mem_append.1 he with he | he
      · exact .inr (new e he)
      · exact (ih he).imp (List.mem_cons_of_mem _) id

end Store

namespace BuildM

open Build

variable {b b' m : Build} {roots : List Element} {e container child : Element}
  {before rest list : List Element} {fuel : Nat} {d : Bool}

/-! ## Replacing -/

theorem passWithin_replaces (wf : b.store.WellFormed) (run : Runs (passWithin fuel e) b d m) :
    m.store.WellFormed ∧ OnlyReplaces b.store m.store := by
  have under : b.store.Under [e] e := ⟨e, by simp, .root⟩
  exact ((replacing_law b.store [e]).withinStates fuel
    ⟨wf, (Spares.refl b.store).onlyReplaces⟩ under).of_runs run

theorem replace?_replaces {r : Option (Element × List Element)} (wf : b.store.WellFormed)
    (split : b.store.children container = before ++ child :: rest)
    (run : Runs (replace? container before child rest) b r m) :
    m.store.WellFormed ∧ OnlyReplaces b.store m.store := by
  have under : b.store.Under [container] container := ⟨container, by simp, .root⟩
  exact ((replacing_law b.store [container]).replaceStates
    ⟨wf, (Spares.refl b.store).onlyReplaces⟩ under split).of_runs run

/-! ## A pass that leaves nothing pending -/

variable {s : Store} {rank : Element → Nat}

/-- A pass over the children of a container that leaves nothing pending. -/
theorem Passes.calm
    (hbelow : ∀ child b b', b.store.WellFormed → OnlyReplaces s b.store →
      child.isContainer = true → (s.InStore child → rank child ≤ fuel) →
      Runs (passWithin fuel child) b true b' → b'.store.isPending child = false)
    (h : Passes (passWithin fuel) container before list b d b') (done : d = true)
    (wf : b.store.WellFormed) (since : OnlyReplaces s b.store)
    (split : b.store.children container = before ++ list)
    (enough : ∀ child ∈ list, s.InStore child → rank child ≤ fuel)
    (calm : ∀ z ∈ before, b.store.isPending z = false) :
    ∀ z ∈ b'.store.children container, b'.store.isPending z = false := by
  induction h with
  | nil =>
      rw [split, List.append_nil]
      exact calm
  | @inside before rest child b m b' _ _ inner first others ih =>
      obtain ⟨rfl, rfl⟩ := Bool.and_eq_true_iff.1 done
      have here : child ∈ b.store.children container := by simp [split]
      obtain ⟨wf', replaces⟩ := passWithin_replaces wf first
      refine ih rfl wf' (since.trans replaces) ?_
        (fun x hx => enough x (List.mem_cons_of_mem child hx)) fun z hz => ?_
      · -- What happens below the child leaves the children of the container alone.
        rcases passWithin_lightens fuel wf first with rfl | lighter
        · simp [split]
        · rw [lighter.kept container (inStore_of_child here) fun reach =>
            wf.acyclic container child here reach, split, List.append_assoc,
            List.singleton_append]
      · rcases List.mem_append.1 hz with hz | hz
        · exact replaces.calm wf wf'.acyclic (calm z hz)
        · rw [List.mem_singleton.1 hz]
          exact hbelow child b m wf since inner (enough child (by simp)) first
  | @replaced before rest spliced child produced b m b' _ producer first others ih =>
      obtain ⟨wf', replaces⟩ := replace?_replaces wf split first
      obtain ⟨-, split'⟩ := replace?_lightens wf split producer first
      refine ih done wf' (since.trans replaces) split'
        (fun x hx => enough x (List.mem_cons_of_mem child hx)) fun z hz => ?_
      rcases List.mem_append.1 hz with hz | hz
      · exact replaces.calm wf wf'.acyclic (calm z hz)
      · obtain ⟨m₁, m₂, tried, fitted, -⟩ := runs_replace?_eq_some.1 first
        obtain ⟨-, -, -, new⟩ := fit_replaces wf tried fitted
        exact replaces.isPending_of_new wf'.acyclic (new z hz)
  | waiting => cases done
  | @settled before rest child b b' _ leaf other others ih =>
      refine ih done wf since (by simp [split])
        (fun x hx => enough x (List.mem_cons_of_mem child hx)) fun z hz => ?_
      rcases List.mem_append.1 hz with hz | hz
      · exact calm z hz
      · rw [List.mem_singleton.1 hz, wf.acyclic.isPending_eq_false_iff]
        intro x reach
        rw [reach_leaf leaf reach]
        exact other

/-- A pass leaves nothing pending where it says so, if it may go as deep as the tree was at first. -/
theorem passWithin_calm (isRank : s.IsRank rank) (wf : b.store.WellFormed)
    (since : OnlyReplaces s b.store) (inner : e.isContainer = true)
    (enough : s.InStore e → rank e ≤ fuel) (run : Runs (passWithin fuel e) b true b') :
    b'.store.isPending e = false := by
  induction fuel generalizing e b b' with
  | zero =>
      obtain ⟨-, rfl⟩ := runs_pure.1 run
      refine since.isPending_of_new wf.acyclic fun old => ?_
      have := isRank.positive e
      have := enough old
      omega
  | succ fuel ih =>
      obtain ⟨wf', replaces⟩ := passWithin_replaces wf run
      by_cases old : s.InStore e
      · obtain ⟨_, _, got, run⟩ := runs_bind.1 run
        obtain ⟨rfl, rfl⟩ := runs_get.1 got
        have calm := (passes_of_runs run).calm
          (fun child b b' wf since inner enough run => ih wf since inner enough run) rfl wf since rfl
          (fun child here inside => ?_) (by simp)
        · rw [wf'.acyclic.isPending_eq_false_iff]
          intro x reach
          rcases reach.eq_or_child with rfl | ⟨child, below, reach⟩
          · exact not_isProducer_of_isContainer inner
          · exact wf'.acyclic.isPending_eq_false_iff.1 (calm child below) x reach
        · rcases (since.children e old).mem_cases here with before | new
          · exact isRank.child_le before (enough old)
          · exact absurd inside new
      · exact (since.trans replaces).isPending_of_new wf'.acyclic old

/-- A pass over all roots that leaves nothing pending leaves no producer in a container. -/
theorem passAll_calm (wf : b.store.WellFormed) (run : Runs (passAll roots) b d b') :
    b'.store.WellFormed ∧ OnlyReplaces b.store b'.store ∧ (d = true →
      ∀ root ∈ roots, root.isContainer = true → b'.store.isPending root = false) := by
  induction roots generalizing b d with
  | nil =>
      obtain ⟨-, rfl⟩ := runs_pure.1 run
      exact ⟨wf, (Spares.refl b.store).onlyReplaces, by simp⟩
  | cons root rest ih =>
      obtain ⟨done, m, first, run⟩ := runs_bind.1 run
      obtain ⟨last, _, second, run⟩ := runs_bind.1 run
      obtain ⟨rfl, rfl⟩ := runs_pure.1 run
      obtain ⟨_, _, got, first⟩ := runs_bind.1 first
      obtain ⟨rfl, rfl⟩ := runs_get.1 got
      obtain ⟨wf', replaces⟩ := passWithin_replaces wf first
      obtain ⟨wf'', replaces', calm⟩ := ih wf' second
      refine ⟨wf'', replaces.trans replaces', fun both x hx inner => ?_⟩
      obtain ⟨rfl, rfl⟩ := Bool.and_eq_true_iff.1 both
      rcases List.mem_cons.1 hx with rfl | hx
      · obtain ⟨rank, isRank⟩ := wf.acyclic.exists_rank
        refine replaces'.calm wf' wf''.acyclic ?_
        exact passWithin_calm isRank wf (Spares.refl b.store).onlyReplaces inner
          (fun _ => isRank.bounded x) first
      · exact calm rfl x hx inner

theorem resolveWithin_calm {attempts : Nat} {last : Option Nat} (wf : b.store.WellFormed)
    (run : Runs (resolveWithin roots attempts last) b () b') :
    b'.store.WellFormed ∧
      ∀ root ∈ roots, root.isContainer = true → b'.store.isPending root = false := by
  induction attempts generalizing b last with
  | zero =>
      obtain ⟨_, _, -, run⟩ := runs_bind.1 run
      exact absurd run not_runs_throw
  | succ attempts ih =>
      have run : (resolveWithin roots (attempts + 1) last b : Except SheetError Unit × Build) =
          (.ok (), b') := run
      rw [resolveWithin_succ] at run
      rcases first : (passAll roots b : Except SheetError Bool × Build) with ⟨_ | _ | _, m⟩
      · rw [first] at run
        cases (Prod.mk.inj run).1
      · obtain ⟨wf', -⟩ := passAll_calm wf first
        rw [first] at run
        dsimp only at run
        split at run
        · cases (Prod.mk.inj run).1
        · exact ih wf' run
      · obtain ⟨wf', -, calm⟩ := passAll_calm wf first
        rw [first] at run
        obtain rfl := (Prod.mk.inj run).2
        exact ⟨wf', calm rfl⟩

/-- After resolving no container at or below a root holds a producer. -/
theorem resolve_complete (wf : b.store.WellFormed) (run : Runs (resolve roots) b () b')
    {root : Element} (hroot : root ∈ roots) (reach : Reach b'.store root e)
    (below : child ∈ b'.store.children e) : isProducer child = false := by
  obtain ⟨_, _, got, run⟩ := runs_bind.1 run
  obtain ⟨rfl, rfl⟩ := runs_get.1 got
  obtain ⟨wf', calm⟩ := resolveWithin_calm wf run
  have inner : root.isContainer = true := by
    rcases reach.eq_or_child with rfl | ⟨x, first, -⟩
    · exact isContainer_of_child below
    · exact isContainer_of_child first
  exact wf'.acyclic.isPending_eq_false_iff.1 (calm root hroot inner) child (.child reach below)

end BuildM

end Spreadsheet
