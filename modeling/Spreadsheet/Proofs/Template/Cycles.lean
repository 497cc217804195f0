import Mathlib.Data.List.Chain
import Mathlib.Data.List.Perm.Subperm
import Mathlib.Logic.Relation
import Spreadsheet.Template.Cycle

/-!
# Searching for circles

The search from a name goes on to everything that the name waits on, and gives up a way only when all
that lies further on has been tried.  Nothing is remembered of the ways given up.  It comes to an end
all the same, since no name is twice on a way; it finds a circle exactly when one can be reached, and
what it returns is a way into that circle.
-/

namespace Spreadsheet.Template

open Relation (ReflTransGen TransGen)

variable {K : Type} {edges : Waits K} {visiting next path : List K} {name dep : K}

/-! ## Trying one name after another -/

theorem firstCycle_eq_none {search : K → Option (List K)} :
    firstCycle search next = none ↔ ∀ dep ∈ next, search dep = none := by
  induction next with
  | nil => simp [firstCycle]
  | cons dep rest ih =>
      cases here : search dep with
      | none => simp [firstCycle, here, ih]
      | some path => simp [firstCycle, here]

theorem firstCycle_eq_some {search : K → Option (List K)} :
    firstCycle search next = some path ↔ ∃ tried dep rest, next = tried ++ dep :: rest ∧
      (∀ other ∈ tried, search other = none) ∧ search dep = some path := by
  constructor
  · intro h
    induction next with
    | nil => cases h
    | cons dep rest ih =>
        cases here : search dep with
        | none =>
            simp only [firstCycle, here] at h
            obtain ⟨tried, later, rest, rfl, failed, leads⟩ := ih h
            exact ⟨dep :: tried, later, rest, rfl, List.forall_mem_cons.2 ⟨here, failed⟩, leads⟩
        | some way =>
            simp only [firstCycle, here] at h
            exact ⟨[], dep, rest, rfl, by simp, here.trans h⟩
  · rintro ⟨tried, dep, rest, rfl, failed, leads⟩
    induction tried with
    | nil => simp [firstCycle, leads]
    | cons other tried ih =>
        obtain ⟨first, failed⟩ := List.forall_mem_cons.1 failed
        simpa [firstCycle, first] using ih failed

/-! ## Graphs -/

/-- Whether names can be those on a way: they are names of the graph, and none of them is there
twice. -/
structure Waits.Way (edges : Waits K) (visiting : List K) : Prop where
  nodup : visiting.Nodup
  known : visiting ⊆ edges.map (·.1)

theorem Waits.Way.nil : edges.Way [] :=
  ⟨.nil, List.nil_subset _⟩

theorem Waits.Way.length_le (h : edges.Way visiting) : visiting.length ≤ edges.length := by
  simpa using (h.nodup.subperm h.known).length_le

/-- Going one name further takes one step. -/
theorem Waits.Way.enough_cons (h : edges.Way (name :: visiting)) {fuel : Nat}
    (enough : edges.length < fuel + visiting.length) :
    ∃ less, fuel = less + 1 ∧ edges.length < less + (name :: visiting).length := by
  have := h.length_le
  rw [List.length_cons] at this ⊢
  exact ⟨fuel - 1, by omega, by omega⟩

variable [DecidableEq K]

/-- Whether a name waits on another. -/
def Waits.Edge (edges : Waits K) (name dep : K) : Prop :=
  ∃ next, edges.of name = some next ∧ dep ∈ next

theorem Waits.mem_keys (h : edges.of name = some next) : name ∈ edges.map (·.1) := by
  obtain ⟨entry, found, -⟩ := Option.map_eq_some_iff.1 h
  have same : entry.1 = name := by simpa using List.find?_some found
  exact List.mem_map.2 ⟨entry, List.mem_of_find?_eq_some found, same⟩

theorem Waits.edge_iff (h : edges.of name = some next) : edges.Edge name dep ↔ dep ∈ next := by
  refine ⟨fun ⟨other, waits, here⟩ => ?_, fun here => ⟨next, h, here⟩⟩
  rw [h] at waits
  cases waits
  exact here

theorem Waits.not_edge (h : edges.of name = none) : ¬edges.Edge name dep := by
  rintro ⟨next, waits, -⟩
  rw [h] at waits
  cases waits

/-- Whether a path is a way into a circle: it follows the graph, and comes back with its last name to
one that it has passed. -/
structure Waits.Circles (edges : Waits K) (start : K) (path : List K) : Prop where
  start : path.head? = some start
  follows : path.IsChain edges.Edge
  apart : path.dropLast.Nodup
  back : ∃ name ∈ path.dropLast, path.getLast? = some name

/-! ## The search -/

/-- The search from a name when `visiting` are the names on the way to it, with no bound on its
steps. -/
inductive Searches (edges : Waits K) : List K → K → Option (List K) → Prop
  | back {visiting : List K} {name : K} (again : name ∈ visiting) :
      Searches edges visiting name (some [name])
  | missing {visiting : List K} {name : K} (fresh : name ∉ visiting) (waits : edges.of name = none) :
      Searches edges visiting name none
  | found {visiting : List K} {name : K} {tried rest : List K} {dep : K} {path : List K}
      (fresh : name ∉ visiting) (waits : edges.of name = some (tried ++ dep :: rest))
      (failed : ∀ other ∈ tried, Searches edges (name :: visiting) other none)
      (leads : Searches edges (name :: visiting) dep (some path)) :
      Searches edges visiting name (some (name :: path))
  | exhausted {visiting : List K} {name : K} {next : List K} (fresh : name ∉ visiting)
      (waits : edges.of name = some next)
      (failed : ∀ dep ∈ next, Searches edges (name :: visiting) dep none) :
      Searches edges visiting name none

theorem Waits.Way.cons (h : edges.Way visiting) (fresh : name ∉ visiting)
    (waits : edges.of name = some next) : edges.Way (name :: visiting) :=
  ⟨List.nodup_cons.2 ⟨fresh, h.nodup⟩, List.cons_subset.2 ⟨mem_keys waits, h.known⟩⟩

/-! ## The bound on the steps is never met -/

theorem cycleVia_of_mem {fuel : Nat} (again : name ∈ visiting) :
    cycleVia edges fuel visiting name = some [name] := by
  rw [cycleVia.eq_def]
  simp [again]

theorem cycleVia_of_missing {fuel : Nat} (fresh : name ∉ visiting) (waits : edges.of name = none) :
    cycleVia edges fuel visiting name = none := by
  rw [cycleVia.eq_def]
  simp [fresh, waits]

theorem cycleVia_succ {fuel : Nat} (fresh : name ∉ visiting) (waits : edges.of name = some next) :
    cycleVia edges (fuel + 1) visiting name =
      (firstCycle (cycleVia edges fuel (name :: visiting)) next).map (name :: ·) := by
  rw [cycleVia.eq_def]
  simp [fresh, waits]

/-- With as many steps as there are names left for the way, the bounded search is a search. -/
theorem searches_cycleVia {fuel : Nat} (way : edges.Way visiting)
    (enough : edges.length < fuel + visiting.length) :
    Searches edges visiting name (cycleVia edges fuel visiting name) := by
  induction fuel generalizing visiting name with
  | zero =>
      have := way.length_le
      omega
  | succ fuel ih =>
      by_cases again : name ∈ visiting
      · rw [cycleVia_of_mem again]
        exact .back again
      cases waits : edges.of name with
      | none =>
          rw [cycleVia_of_missing again waits]
          exact .missing again waits
      | some next =>
          have further : ∀ dep, Searches edges (name :: visiting) dep
              (cycleVia edges fuel (name :: visiting) dep) := fun dep =>
            ih (way.cons again waits) (by rw [List.length_cons]; omega)
          rw [cycleVia_succ again waits]
          cases found : firstCycle (cycleVia edges fuel (name :: visiting)) next with
          | none =>
              refine .exhausted again waits fun dep hdep => ?_
              have here := firstCycle_eq_none.1 found dep hdep
              exact here ▸ further dep
          | some path =>
              obtain ⟨tried, dep, rest, rfl, failed, leads⟩ := firstCycle_eq_some.1 found
              exact .found again waits (fun other hother => failed other hother ▸ further other)
                (leads ▸ further dep)

theorem Searches.eq_cycleVia {result : Option (List K)} (h : Searches edges visiting name result)
    {fuel : Nat} (way : edges.Way visiting) (enough : edges.length < fuel + visiting.length) :
    result = cycleVia edges fuel visiting name := by
  induction h generalizing fuel with
  | back again => exact (cycleVia_of_mem again).symm
  | missing fresh waits => exact (cycleVia_of_missing fresh waits).symm
  | @found visiting name tried rest dep path fresh waits failed leads ihs ih =>
      have inner := way.cons fresh waits
      obtain ⟨fuel, rfl, left⟩ := inner.enough_cons enough
      have first : firstCycle (cycleVia edges fuel (name :: visiting)) (tried ++ dep :: rest) =
          some path := by
        refine firstCycle_eq_some.2 ⟨tried, dep, rest, rfl, fun other hother => ?_, ?_⟩
        · exact (ihs other hother inner left).symm
        · exact (ih inner left).symm
      rw [cycleVia_succ fresh waits, first, Option.map_some]
  | @exhausted visiting name next fresh waits failed ihs =>
      have inner := way.cons fresh waits
      obtain ⟨fuel, rfl, left⟩ := inner.enough_cons enough
      have none : firstCycle (cycleVia edges fuel (name :: visiting)) next = none :=
        firstCycle_eq_none.2 fun dep hdep => (ihs dep hdep inner left).symm
      rw [cycleVia_succ fresh waits, none, Option.map_none]

/-! ## What is found -/

/-- Whether a path leads from a name, off the names on the way, back to one of these or of its own. -/
structure LeadsBack (edges : Waits K) (visiting : List K) (name : K) (path : List K) : Prop where
  head : path.head? = some name
  follows : path.IsChain edges.Edge
  apart : path.dropLast.Nodup
  fresh : ∀ other ∈ path.dropLast, other ∉ visiting
  back : ∃ last, path.getLast? = some last ∧ (last ∈ visiting ∨ last ∈ path.dropLast)

theorem LeadsBack.cons (h : LeadsBack edges (name :: visiting) dep path) (fresh : name ∉ visiting)
    (edge : edges.Edge name dep) : LeadsBack edges visiting name (name :: path) := by
  obtain ⟨more, rfl⟩ : ∃ more, path = dep :: more := by
    have head := h.head
    cases path with
    | nil => cases head
    | cons first more =>
        cases head
        exact ⟨more, rfl⟩
  obtain ⟨last, isLast, back⟩ := h.back
  have step : (name :: dep :: more).dropLast = name :: (dep :: more).dropLast := rfl
  refine ⟨rfl, h.follows.cons_cons edge, ?_, ?_, last, isLast, ?_⟩
  · rw [step]
    exact List.nodup_cons.2 ⟨fun here => h.fresh name here (List.mem_cons_self ..), h.apart⟩
  · rw [step, List.forall_mem_cons]
    exact ⟨fresh, fun other here old => h.fresh other here (List.mem_cons_of_mem _ old)⟩
  · rw [step, List.mem_cons]
    rcases back with back | back
    · rcases List.mem_cons.1 back with rfl | old
      · exact .inr (.inl rfl)
      · exact .inl old
    · exact .inr (.inr back)

theorem Searches.leadsBack (h : Searches edges visiting name (some path)) :
    LeadsBack edges visiting name path := by
  generalize hresult : some path = result at h
  induction h generalizing path with
  | back again =>
      cases hresult
      exact ⟨rfl, .singleton _, .nil, by simp, _, rfl, .inl again⟩
  | found fresh waits failed leads _ ih =>
      cases hresult
      exact (ih rfl).cons fresh ((Waits.edge_iff waits).2 (by simp))
  | missing => cases hresult
  | exhausted => cases hresult

theorem LeadsBack.circles (h : LeadsBack edges [] name path) : edges.Circles name path where
  start := h.head
  follows := h.follows
  apart := h.apart
  back := by
    obtain ⟨last, isLast, back⟩ := h.back
    exact ⟨last, back.resolve_left List.not_mem_nil, isLast⟩

/-- A name in front of the last one of a path that follows the graph leads to it. -/
theorem transGen_getLast {first last : K} {rest : List K}
    (follows : (first :: rest).IsChain edges.Edge) (isLast : rest.getLast? = some last) :
    TransGen edges.Edge first last := by
  induction rest generalizing first with
  | nil => cases isLast
  | cons second rest ih =>
      obtain ⟨edge, follows⟩ := List.isChain_cons_cons.1 follows
      cases rest with
      | nil =>
          cases isLast
          exact .single edge
      | cons third rest => exact .head edge (ih follows (by simpa using isLast))

theorem reflTransGen_of_mem {first : K} {rest : List K}
    (follows : (first :: rest).IsChain edges.Edge) (h : name ∈ first :: rest) :
    ReflTransGen edges.Edge first name := by
  induction rest generalizing first with
  | nil =>
      obtain rfl := List.mem_singleton.1 h
      exact .refl
  | cons second rest ih =>
      obtain ⟨edge, follows⟩ := List.isChain_cons_cons.1 follows
      rcases List.mem_cons.1 h with rfl | h
      · exact .refl
      · exact .head edge (ih follows h)

/-- A way into a circle shows that there is one. -/
theorem Waits.Circles.exists_cycle (h : edges.Circles name path) :
    ∃ on, ReflTransGen edges.Edge name on ∧ TransGen edges.Edge on on := by
  obtain ⟨on, passed, isLast⟩ := h.back
  obtain ⟨before, after, split⟩ := List.append_of_mem passed
  obtain ⟨front, rfl⟩ := List.getLast?_eq_some_iff.1 isLast
  rw [List.dropLast_concat] at split
  subst split
  have follows := h.follows
  rw [List.append_assoc, List.cons_append] at follows
  refine ⟨on, ?_, transGen_getLast (List.isChain_append.1 follows).2.1 (by simp)⟩
  have start := h.start
  cases before with
  | nil =>
      cases start
      exact .refl
  | cons first before =>
      cases start
      exact reflTransGen_of_mem follows (by simp)

/-! ## Nothing is missed -/

/-- A search that fails meets no circle and none of the names on the way, wherever the graph leads. -/
theorem Searches.avoids (h : Searches edges visiting name none) {on : K}
    (reach : ReflTransGen edges.Edge name on) :
    on ∉ visiting ∧ ¬TransGen edges.Edge on on := by
  generalize hresult : (none : Option (List K)) = result at h
  induction h with
  | back => cases hresult
  | found => cases hresult
  | missing fresh waits =>
      have stuck : ∀ other, ¬edges.Edge _ other := fun _ => Waits.not_edge waits
      rcases reach.cases_head with rfl | ⟨dep, edge, -⟩
      · refine ⟨fresh, fun circle => ?_⟩
        obtain ⟨dep, edge, -⟩ := TransGen.head'_iff.1 circle
        exact stuck dep edge
      · exact absurd edge (stuck dep)
  | exhausted fresh waits failed ih =>
      rcases reach.cases_head with rfl | ⟨dep, edge, further⟩
      · refine ⟨fresh, fun circle => ?_⟩
        -- a circle through the name itself would come back to it from one of the names tried
        obtain ⟨dep, edge, further⟩ := TransGen.head'_iff.1 circle
        exact (ih dep ((Waits.edge_iff waits).1 edge) further rfl).1 (List.mem_cons_self ..)
      · obtain ⟨off, none⟩ := ih dep ((Waits.edge_iff waits).1 edge) further rfl
        exact ⟨fun old => off (List.mem_cons_of_mem _ old), none⟩

theorem searches_findCycle (start : K) (edges : Waits K) :
    Searches edges [] start (findCycle start edges) :=
  searches_cycleVia .nil (by simp)

theorem Searches.eq_findCycle {start : K} {result : Option (List K)}
    (h : Searches edges [] start result) : result = findCycle start edges :=
  h.eq_cycleVia .nil (by simp)

/-- The search ends, with one result; it finds something exactly when a circle can be reached, and
what it finds is a way into one. -/
theorem findCycle_exactly (start : K) (edges : Waits K) :
    (∀ result, Searches edges [] start result ↔ result = findCycle start edges) ∧
      ((findCycle start edges).isSome ↔
        ∃ name, ReflTransGen edges.Edge start name ∧ TransGen edges.Edge name name) ∧
      ∀ path, findCycle start edges = some path → edges.Circles start path := by
  have circles : ∀ path, findCycle start edges = some path → edges.Circles start path := by
    intro path found
    have ends := searches_findCycle start edges
    rw [found] at ends
    exact ends.leadsBack.circles
  refine ⟨fun result => ⟨Searches.eq_findCycle, ?_⟩, ⟨fun found => ?_, ?_⟩, circles⟩
  · rintro rfl
    exact searches_findCycle start edges
  · obtain ⟨path, found⟩ := Option.isSome_iff_exists.1 found
    exact (circles path found).exists_cycle
  · rintro ⟨name, reach, circle⟩
    by_contra failed
    have ends := searches_findCycle start edges
    rw [Option.not_isSome_iff_eq_none.1 failed] at ends
    exact (ends.avoids reach).2 circle

/-- Two names that wait on each other, reached from a third. -/
theorem findCycle_exactly_pair :
    let edges : Waits String := [("total", ["price"]), ("price", ["rate", "tax"]), ("tax", ["price"])]
    findCycle "total" edges = some ["total", "price", "tax", "price"] ∧
      edges.Circles "total" ["total", "price", "tax", "price"] :=
  ⟨by decide, (findCycle_exactly _ _).2.2 _ (by decide)⟩

end Spreadsheet.Template
