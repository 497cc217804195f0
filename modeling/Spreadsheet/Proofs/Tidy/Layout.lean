import Spreadsheet.Proofs.Layout.Gentle
import Spreadsheet.Proofs.Tidy.Store

/-!
# Layouts leave stores tidy

Header cells are put in front of the vectors they belong to, stacks around elements with space, and
empty cells, vectors and frames in the place of gaps.  All of them are new or were there before, and
each stands where it may.  All other phases only dress what is there.
-/

namespace Spreadsheet

namespace Store

variable {use : Node → Prop} {s t : Store} {root : Element}

/-! ## Phases that dress -/

theorem dresses_prepareHeaders (s : Store) (root : Element) : Dresses s (s.prepareHeaders root) :=
  prepareHeaders_relates chains_dresses
    (fun s v _ => dresses_updateVector s v (fun _ => rfl) (fun _ => rfl) fun _ => rfl) s root

theorem dresses_applySizes (s : Store) (root : Element) : Dresses s (s.applySizes root) :=
  applySizes_relates chains_dresses
    (fun s _ v _ => dresses_updateVector s v (fun _ => rfl) (fun _ => rfl) fun _ => rfl) s root

theorem dresses_setLocation (s : Store) (e : Element) (l : Location) :
    Dresses s (s.setLocation e l) := by
  cases e with
  | cell c => exact dresses_updateCell s c (fun _ => rfl) (fun _ => rfl) fun _ => id
  | vector v => exact dresses_updateAttributes s (.vector v) fun a => { a with location := some l }
  | frame f => exact dresses_updateAttributes s (.frame f) fun a => { a with location := some l }
  | stack k => exact dresses_updateAttributes s (.stack k) fun a => { a with location := some l }
  | _ => exact .refl s

theorem dresses_place (s : Store) (e : Element) (l : Location) : Dresses s (s.place e l) :=
  placeWithin_relates chains_dresses dresses_setLocation _ s e l

theorem dresses_cascade (s : Store) (e : Element) (outer : Inherited) :
    Dresses s (s.cascade e outer) := by
  refine cascadeWithin_relates chains_dresses (fun s c outer => ?_) _ s e outer
  apply dresses_updateCell s c
  · intro n
    split <;> rfl
  · intro n
    split <;> rfl
  · intro n merge
    split <;> exact merge

/-! ## Phases that give containers new children -/

/-- What the nodes hold that are no containers. -/
def ties (s : Store) : (CellId → Option Formula) × Table ExpressionNode × Table CallNode :=
  (fun c => (s.cell c).formula, s.expressions, s.calls)

theorem ties_addCell (s : Store) {n : CellNode} (plain : n.formula = none) :
    (s.addCell n).2.ties = s.ties := by
  refine Prod.ext (funext fun c => ?_) rfl
  simp only [ties, cell_addCell_eq]
  split
  case isTrue new =>
    have blank : s.cell c = default := get_eq_default new.ge
    rw [plain, blank]
    rfl
  case isFalse => rfl

theorem ties_updateAttributes (s : Store) (e : Element) (f : Attributes → Attributes) :
    (s.updateAttributes e f).ties = s.ties := by
  cases e <;> rfl

theorem ties_setChildren (s : Store) (e : Element) (l : List Element) :
    (s.setChildren e l).ties = s.ties := by
  cases e <;> rfl

theorem gentle_ties : Gentle fun s t => t.ties = s.ties where
  toChains := chains_part
  cell s _ _ _ _ plain := ties_addCell s plain
  vector _ _ _ _ := rfl
  frame _ _ _ _ := rfl
  stack _ _ := rfl
  attributes := ties_updateAttributes
  children := by
    intro s t e l same _ _
    rw [ties_setChildren, same]

/-- Whether an element is in use; a producer has to be there as well. -/
def InUse (use : Node → Prop) (s : Store) (e : Element) : Prop :=
  e.Meets fun n => use n ∧ (isProducer e = true → s.Has n)

theorem Tidy.orderly (h : s.Tidy use) : s.Orderly (s.InUse use) (·.isHeader = true) where
  gaps _ n hn := by cases hn
  unborn e new n hn := by
    cases e with
    | gap g => cases hn
    | expression x => exact absurd trivial new
    | call c => exact absurd trivial new
    | _ =>
        obtain rfl := Option.some.inj hn
        exact ⟨h.unborn _ new, fun producer => by cases producer⟩
  closed e child below := h.wf.closed e child below
  within e used child below := (h.child (used.imp fun _ both => both.1) below).imp
    fun _ both => ⟨both.2, fun _ => both.1⟩
  takes e used := h.takes e (used.imp fun _ both => both.1)
  headFirst v used := h.headed v (used _ rfl).1

theorem has_of_ties (held : ∀ e, s.InStore e → t.InStore e) (same : t.ties = s.ties) {n : Node}
    (old : s.Has n) : t.Has n := by
  obtain ⟨-, others⟩ := Prod.mk.inj same
  obtain ⟨expressions, calls⟩ := Prod.mk.inj others
  cases n with
  | expression x => exact Nat.lt_of_lt_of_eq old (congrArg Table.size expressions).symm
  | call c => exact Nat.lt_of_lt_of_eq old (congrArg Table.size calls).symm
  | cell c => exact held (.cell c) old
  | vector v => exact held (.vector v) old
  | frame f => exact held (.frame f) old
  | stack k => exact held (.stack k) old

/-- Whether a store is tidy and everything is there that was before. -/
def Tends (use : Node → Prop) (s t : Store) : Prop :=
  t.Tidy use ∧ ∀ n, s.Has n → t.Has n

/-- A phase that only gives containers new children leaves a store tidy if it leaves it in order. -/
theorem Tidy.of_orderly (h : s.Tidy use) (wf : t.WellFormed)
    (held : ∀ e, s.InStore e → t.InStore e) (same : t.ties = s.ties)
    (orderly : t.Orderly (s.InUse use) (·.isHeader = true)) : Tends use s t := by
  have has : ∀ n, s.Has n → t.Has n := fun n => has_of_ties held same
  obtain ⟨formulas, others⟩ := Prod.mk.inj same
  obtain ⟨expressions, calls⟩ := Prod.mk.inj others
  have inside : ∀ e : Element, e.isContainer = true → e.Meets use →
      ∀ m ∈ (t.children e).filterMap Element.node?, t.Has m ∧ use m := by
    intro e container used m hm
    obtain ⟨child, below, hm⟩ := List.mem_filterMap.1 hm
    have here := orderly.within e (used.imp fun _ used => ⟨used, fun producer => by
      rw [not_isProducer_of_isContainer container] at producer
      cases producer⟩) child below m hm
    refine ⟨?_, here.1⟩
    cases producer : isProducer child with
    | false => exact meets_of_inStore (orderly.closed e child below) producer m hm
    | true => exact has m (here.2 producer)
  refine ⟨⟨⟨wf, fun n outside => h.unborn n fun old => outside (has n old), fun n used m hm => ?_⟩,
    fun e used child below => ?_, fun v used => ?_⟩, has⟩
  · have alone : ∀ {k : Node}, n = k → k.element.Meets use := fun same k' hk' => by
      rw [Node.node?_element, Option.mem_some_iff] at hk'
      rw [← hk', ← same]
      exact used
    cases n with
    | vector v => exact inside (.vector v) rfl (alone rfl) m hm
    | frame f => exact inside (.frame f) rfl (alone rfl) m hm
    | stack k => exact inside (.stack k) rfl (alone rfl) m hm
    | cell c =>
        have formula : (t.cell c).formula = (s.cell c).formula := congrFun formulas c
        rw [holds, formula] at hm
        exact (h.holds (.cell c) used m hm).imp (has m) id
    | expression x =>
        rw [holds, expression, expressions] at hm
        exact (h.holds (.expression x) used m hm).imp (has m) id
    | call c =>
        rw [holds, call, calls] at hm
        exact (h.holds (.call c) used m hm).imp (has m) id
  · exact orderly.takes e (used.imp fun _ used => ⟨used, fun producer => by
      rw [not_isProducer_of_isContainer (isContainer_of_child below)] at producer
      cases producer⟩) child below
  · exact orderly.headFirst v fun n hn => ⟨Option.some.inj hn ▸ used, fun producer => by
      cases producer⟩

end Store

namespace StoreM

open Store

variable {use : Node → Prop} {s t : Store} {root : Element}

theorem insertHeaders_tidy (h : s.Tidy use) (used : root.Meets (s.AtHand use)) {r : Unit}
    (run : Leads (insertHeaders root) s r t) : Tends use s t := by
  have hroot := inStore_of_meets (used.imp fun _ both => both.1)
  have grows := insertHeaders_grows h.wf hroot run
  have same : Retains ties (insertHeaders root) :=
    insertHeaders_relates chains_part (fun s _ _ _ plain => ties_addCell s plain)
      (fun _ _ _ => rfl) root
  exact h.of_orderly grows.wf grows.held (same.of_leads run) (insertHeaders_orderly
    (fun _ _ => rfl) h.orderly
    (fun e he => h.wf.inStore_of_reach hroot (h.wf.acyclic.mem_subtree.1 he)) run).1

theorem wrapSpacing_tidy (h : s.Tidy use) (used : root.Meets (s.AtHand use))
    {notices : List Notice} (run : Leads (wrapSpacing root) s notices t) : Tends use s t := by
  have grows := wrapSpacing_grows h.wf (inStore_of_meets (used.imp fun _ both => both.1)) run
  have same := (wrapSpacing_relates gentle_ties root).of_leads run
  obtain ⟨_, _, ⟨rfl, rfl⟩, wrapped⟩ := leads_bind.1 run
  exact h.of_orderly grows.wf grows.held same ((wrapWithin_shapes _ h.orderly
    (used.imp fun _ both => ⟨both.2, fun _ => both.1⟩) wrapped).orderly h.orderly)

theorem explodeGaps_tidy (h : s.Tidy use) (used : root.Meets (s.AtHand use)) {r : Unit}
    (run : Leads (explodeGaps root) s r t) : Tends use s t := by
  have hroot := inStore_of_meets (used.imp fun _ both => both.1)
  have grows := (explodeGaps_gapFree h.wf hroot run).1
  have same := (explodeGaps_relates gentle_ties root).of_leads run
  obtain ⟨_, _, ⟨rfl, rfl⟩, exploded⟩ := leads_bind.1 run
  exact h.of_orderly grows.wf grows.held same ((explodeWithin_shapes _ h.orderly
    ⟨hroot, used.imp fun _ both => ⟨both.2, fun _ => both.1⟩⟩ exploded).orderly h.orderly)

end StoreM

end Spreadsheet
