import Spreadsheet.Proofs.Resolve.Limit
import Spreadsheet.Proofs.Resolve.Steps
import Spreadsheet.Proofs.Resolve.Weight

/-!
# Giving up

A pass either changes nothing at all or leaves less to be done than before.  Resolving that stops
because a pass left as much as the one before has therefore reached a build that no further pass can
change, so that no larger number of passes would have helped.
-/

namespace Spreadsheet

open Store

namespace BuildM

variable {b b' m : Build} {roots : List Element}

/-! ## Passes -/

theorem lightens_trans {root : Element} (hroot : b.store.InStore root)
    (first : m = b ∨ Lightens root b.store m.store)
    (second : m.store.InStore root → b' = m ∨ Lightens root m.store b'.store) :
    b' = b ∨ Lightens root b.store b'.store := by
  rcases first with rfl | first
  · exact second hroot
  · rcases second (first.held root hroot) with rfl | second
    · exact .inr first
    · exact .inr (first.trans hroot second)

/-- A replacement leaves less to be done, and puts what it made in the place of the producer. -/
theorem replace?_lightens {container child produced : Element} {before spliced rest : List Element}
    (wf : b.store.WellFormed) (split : b.store.children container = before ++ child :: rest)
    (producer : isProducer child = true)
    (h : Runs (replace? container before child rest) b (some (produced, spliced)) b') :
    Lightens container b.store b'.store ∧
      b'.store.children container = before ++ spliced ++ rest := by
  have here : child ∈ b.store.children container := by simp [split]
  have inside := inStore_of_child here
  have holds := isContainer_of_child here
  obtain ⟨m₁, m₂, tried, fitted, rfl⟩ := runs_replace?_eq_some.1 h
  obtain ⟨evolves, fresh⟩ := (produce?_fresh container child wf).of_runs tried
  have new := fresh produced rfl
  obtain ⟨evolves', piece⟩ := (fit_fresh container evolves new).of_runs fitted
  obtain ⟨advances, -⟩ := produce?_advances wf tried
  have advances' := advances.trans ((fit_advancing container produced).of_runs fitted)
  have solid := fit_isSolid fitted new.solid fun z hz =>
    advances.solid produced z (fun old => new.apart produced (isContainer_of_child hz) old .root) hz
  refine ⟨lightens_of_replace wf (evolves.trans evolves') advances' inside holds split producer ?_, ?_⟩
  · exact fun z hz => ⟨(piece z hz).1, (piece z hz).2, solid z hz⟩
  · exact children_setChildren_self ((evolves.trans evolves').held _ inside) holds _

theorem Passes.lightens {below : Element → BuildM Bool} {container : Element}
    (hbelow : ∀ child b d b', b.store.WellFormed → Runs (below child) b d b' →
      b' = b ∨ Lightens child b.store b'.store)
    {before list : List Element} {d : Bool} (h : Passes below container before list b d b')
    (wf : b.store.WellFormed) (split : b.store.children container = before ++ list) :
    b' = b ∨ Lightens container b.store b'.store := by
  induction h with
  | nil => exact .inl rfl
  | @inside before rest child b m b' _ _ inner first others ih =>
      have here : child ∈ b.store.children container := by simp [split]
      have moved : b.store.children container = (before ++ [child]) ++ rest := by simp [split]
      rcases hbelow child b _ m wf first with rfl | lighter
      · exact ih wf moved
      · -- What happens below the child leaves the children of the container alone.
        have same := lighter.kept container (inStore_of_child here) fun reach =>
          wf.acyclic container child here reach
        exact lightens_trans (inStore_of_child here) (.inr (lighter.under here)) fun _ =>
          ih lighter.wf (same.trans moved)
  | @replaced before rest spliced child produced b m b' _ producer first others ih =>
      have here : child ∈ b.store.children container := by simp [split]
      obtain ⟨lighter, split'⟩ := replace?_lightens wf split producer first
      exact lightens_trans (inStore_of_child here) (.inr lighter) fun _ => ih lighter.wf split'
  | @waiting before rest child b m b' _ producer first others ih =>
      have here : child ∈ b.store.children container := by simp [split]
      have moved : b.store.children container = (before ++ [child]) ++ rest := by simp [split]
      obtain ⟨evolves, -⟩ := (produce?_fresh container child wf).of_runs first
      obtain ⟨advances, fewer⟩ := produce?_advances wf first
      rcases fewer rfl with rfl | fewer
      · exact ih wf moved
      · have lighter := lightens_of_waits wf evolves advances here fewer
        refine lightens_trans (inStore_of_child here) (.inr lighter) fun hi => ?_
        exact ih evolves.wf ((advances.children container (inStore_of_child here)).trans moved)
  | settled leaf other others ih => exact ih wf (by simp [split])

theorem passWithin_lightens (fuel : Nat) {container : Element} (wf : b.store.WellFormed) {d : Bool}
    (h : Runs (passWithin fuel container) b d b') :
    b' = b ∨ Lightens container b.store b'.store := by
  induction fuel generalizing container b b' d with
  | zero =>
      obtain ⟨-, rfl⟩ := runs_pure.1 h
      exact .inl rfl
  | succ fuel ih =>
      obtain ⟨_, _, got, h⟩ := runs_bind.1 h
      obtain ⟨rfl, rfl⟩ := runs_get.1 got
      exact (passes_of_runs h).lightens (fun _ _ _ _ wf => ih wf) wf rfl

/-- A pass over all roots changes nothing or leaves less to be done. -/
theorem passAll_cases (wf : b.store.WellFormed) (hroots : ∀ root ∈ roots, b.store.InStore root)
    {d : Bool} (h : Runs (passAll roots) b d b') :
    b' = b ∨ Eases b.store b'.store ∧ b'.store.pendingWeight roots < b.store.pendingWeight roots := by
  induction roots generalizing b d with
  | nil =>
      obtain ⟨-, rfl⟩ := runs_pure.1 h
      exact .inl rfl
  | cons root rest ih =>
      have others : ∀ r ∈ rest, b.store.InStore r := fun r hr => hroots r (List.mem_cons_of_mem _ hr)
      obtain ⟨done, m, first, h⟩ := runs_bind.1 h
      obtain ⟨_, _, second, h⟩ := runs_bind.1 h
      obtain ⟨-, rfl⟩ := runs_pure.1 h
      obtain ⟨_, _, got, first⟩ := runs_bind.1 first
      obtain ⟨rfl, rfl⟩ := runs_get.1 got
      have inside := hroots root (by simp)
      rw [pendingWeight_cons, pendingWeight_cons]
      rcases passWithin_lightens _ wf first with rfl | lighter
      · refine (ih wf others second).imp id ?_
        rintro ⟨eases, falls⟩
        have := eases.weight root inside
        exact ⟨eases, by omega⟩
      · have falls := lighter.falls root inside .root
        have below := lighter.toEases.pendingWeight others
        right
        rcases ih lighter.wf (fun r hr => lighter.held r (others r hr)) second with
          rfl | ⟨eases, further⟩
        · exact ⟨lighter.toEases, by omega⟩
        · have := eases.weight root (lighter.held root inside)
          exact ⟨lighter.toEases.trans eases, by omega⟩

/-! ## Stopping -/

/-- Whether resolving with a number of passes and the weight left by the last one stops in a build,
because a pass leaves as much to be done as the one before. -/
inductive Stalls (roots : List Element) : Nat → Option Nat → Build → Build → Prop
  | now {attempts : Nat} {last : Option Nat} {b b' : Build}
      (pass : Runs (passAll roots) b false b')
      (same : last.any (· ≤ b'.store.pendingWeight roots) = true) :
      Stalls roots (attempts + 1) last b b'
  | later {attempts : Nat} {last : Option Nat} {b m b' : Build}
      (pass : Runs (passAll roots) b false m)
      (less : last.any (· ≤ m.store.pendingWeight roots) = false)
      (rest : Stalls roots attempts (some (m.store.pendingWeight roots)) m b') :
      Stalls roots (attempts + 1) last b b'

theorem resolveWithin_succ (roots : List Element) (attempts : Nat) (last : Option Nat) (b : Build) :
    (resolveWithin roots (attempts + 1) last b : Except SheetError Unit × Build) =
      match (passAll roots b : Except SheetError Bool × Build) with
      | (.ok true, m) => (.ok (), m)
      | (.ok false, m) =>
        if last.any (· ≤ m.store.pendingWeight roots) then
          (.error (m.store.unresolvedError roots), m)
        else resolveWithin roots attempts (some (m.store.pendingWeight roots)) m
      | (.error e, m) => (.error e, m) := by
  rw [resolveWithin, bind_apply]
  rcases (passAll roots b : Except SheetError Bool × Build) with ⟨_ | _ | _, m⟩
  · rfl
  · have got : ((get : BuildM Build) m : Except SheetError Build × Build) = (.ok m, m) := rfl
    simp only [Bool.false_eq_true, if_false, bind_apply, got]
    split
    · rfl
    · rfl
  · rfl

/-- Resolving that stalls reports what is left, with any larger number of passes. -/
theorem Stalls.resolveWithin_eq {attempts : Nat} {last : Option Nat}
    (h : Stalls roots attempts last b b') {more : Nat} (enough : attempts ≤ more) :
    (resolveWithin roots more last b : Except SheetError Unit × Build) =
      (.error (b'.store.unresolvedError roots), b') := by
  induction h generalizing more with
  | now pass same =>
      obtain ⟨more, rfl⟩ := Nat.exists_eq_add_of_lt enough
      rw [resolveWithin_succ, show (passAll roots _ : Except SheetError Bool × Build) = _ from pass]
      exact if_pos same
  | later pass less rest ih =>
      obtain ⟨more, rfl⟩ := Nat.exists_eq_add_of_lt enough
      rw [resolveWithin_succ, show (passAll roots _ : Except SheetError Bool × Build) = _ from pass]
      simp only [less, Bool.false_eq_true, if_false]
      exact ih (by omega)

/-- The build in which resolving stalls is one that another pass leaves as it is. -/
theorem Stalls.runs_passAll {attempts : Nat} {last : Option Nat}
    (h : Stalls roots attempts last b b') (wf : b.store.WellFormed)
    (hroots : ∀ root ∈ roots, b.store.InStore root)
    (known : ∀ weight ∈ last, weight = b.store.pendingWeight roots) :
    Runs (passAll roots) b' false b' := by
  induction h with
  | @now attempts last b b' pass same =>
      obtain ⟨weight, hweight, le⟩ := (Option.any_eq_true _ _).1 same
      rcases passAll_cases wf hroots pass with rfl | ⟨-, falls⟩
      · exact pass
      · have := known weight hweight
        simp only [decide_eq_true_eq] at le
        omega
  | @later attempts last b m b' pass less rest ih =>
      have evolves := ((passAll_keeps (.refl wf) hroots).of_runs pass).1
      refine ih evolves.wf (fun root hroot => evolves.held root (hroots root hroot)) ?_
      intro weight hweight
      exact (Option.some.inj hweight).symm

/-- Giving up early loses nothing: another pass over the roots would bind no key and replace no
producer, and resolving fails in the same way with any larger number of passes. -/
theorem resolve_stalled (wf : b.store.WellFormed) (hroots : ∀ root ∈ roots, b.store.InStore root)
    (h : Stalls roots (max b.config.maxResolveAttempts 1) none b b') :
    Runs (passAll roots) b' false b' ∧ ∀ limit, b.config.maxResolveAttempts ≤ limit →
      (resolve roots (b.withLimit limit) : Except SheetError Unit × Build) =
        (.error (b'.store.unresolvedError roots), b'.withLimit limit) := by
  refine ⟨h.runs_passAll wf hroots (by simp), fun limit enough => ?_⟩
  have run := h.resolveWithin_eq (max_le_max_right 1 enough)
  show (resolveWithin roots (max limit 1) none (b.withLimit limit) :
    Except SheetError Unit × Build) = _
  rw [resolveWithin_unlimited roots _ _ b limit, run]

/-- A column with a cell, a formula over it, and a formula over a name that nothing has. -/
def stuck : Build where
  store :=
    { cells := ⟨#[{ value := .text "Rent", id := some "rent" }]⟩
      vectors := ⟨#[{
        orientation := .vertical
        children := [.cell ⟨0⟩, .expression ⟨0⟩, .expression ⟨1⟩] }]⟩
      expressions := ⟨#[
        { template :=
            { source := "[rent] & [rent]"
              expanded := "refs[\"rent\"] & refs[\"rent\"]"
              keys := [.name "rent"]
              isRef := false
              ast := .binary .concat (.ref (.name "rent")) (.ref (.name "rent")) } },
        { template :=
            { source := "[lease]"
              expanded := "refs[\"lease\"]"
              keys := [.name "lease"]
              isRef := true
              ast := .ref (.name "lease") } }]⟩ }
  symbols := { ids := { localEntries := [("rent", some (.cell ⟨0⟩))] } }
  pins := [.vector ⟨0⟩]

theorem resolve_stalled_stuck : ∃ b', Stalls [.vector ⟨0⟩] (max stuck.config.maxResolveAttempts 1)
    none stuck b' ∧ Runs (passAll [.vector ⟨0⟩]) b' false b' ∧
      ∀ limit, stuck.config.maxResolveAttempts ≤ limit →
        (resolve [.vector ⟨0⟩] (stuck.withLimit limit) : Except SheetError Unit × Build) =
          (.error (b'.store.unresolvedError [.vector ⟨0⟩]), b'.withLimit limit) := by
  have wf : stuck.store.WellFormed :=
    wellFormed_of_falling (fun e => e.isContainer.toNat) (by decide) (by decide)
  -- The first pass replaces the formula over the cell, the second finds nothing to do.
  have first : Runs (passAll [.vector ⟨0⟩]) stuck false _ := runs_of_eq_ok (by decide +kernel)
  have second : Runs (passAll [.vector ⟨0⟩])
      (passAll [.vector ⟨0⟩] stuck : Except SheetError Bool × Build).2 false _ :=
    runs_of_eq_ok (by decide +kernel)
  have stalls : Stalls [.vector ⟨0⟩] 30 none stuck _ :=
    .later first rfl (.now second (by decide +kernel))
  exact ⟨_, stalls, resolve_stalled wf (by decide) stalls⟩

end BuildM

end Spreadsheet
