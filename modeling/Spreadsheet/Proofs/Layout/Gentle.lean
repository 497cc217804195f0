import Spreadsheet.Layout
import Spreadsheet.Proofs.Layout.Gaps

/-!
# Space around elements

Between the headers and the places, a layout puts space around elements and fills gaps.  It does so in
small steps: it makes nodes that have neither a name nor a place, changes the look of containers, and
gives a container new children.  The cell in front of the old children stays in front, and a frame
gets no other children than those in the place of its gaps.
A relation that all these steps keep to holds between what was there before and what is there after.
-/

namespace Spreadsheet

open Store (asVector?)
open StoreM (isFrame)

/-! ## Gaps among children -/

/-- Whether some elements are others with elements in the place of gaps. -/
inductive Refills : List Element → List Element → Prop
  | nil : Refills [] []
  | keep (child : Element) {l l' : List Element} : Refills l l' → Refills (child :: l) (child :: l')
  | fill (g : Gap) (new : List Element) {l l' : List Element} :
      Refills l l' → Refills (.gap g :: l) (new ++ l')

theorem Refills.refl (l : List Element) : Refills l l := by
  induction l with
  | nil => exact .nil
  | cons child l ih => exact .keep child ih

theorem Refills.vectors {l l' : List Element} (h : Refills l l') :
    (l.filterMap asVector?).Sublist (l'.filterMap asVector?) := by
  induction h with
  | nil => exact List.Sublist.refl _
  | keep child _ ih =>
      cases picked : asVector? child with
      | none => rwa [List.filterMap_cons_none picked, List.filterMap_cons_none picked]
      | some v =>
          rw [List.filterMap_cons_some picked, List.filterMap_cons_some picked]
          exact ih.cons_cons v
  | @fill g new l l' _ ih =>
      have none : asVector? (.gap g) = none := rfl
      rw [List.filterMap_cons_none none, List.filterMap_append]
      exact ih.trans (List.sublist_append_right _ _)

theorem Refills.eq_of_gapless {l l' : List Element} (h : Refills l l')
    (gapless : ∀ g, .gap g ∉ l) : l' = l := by
  induction h with
  | nil => rfl
  | keep child _ ih => rw [ih fun g hg => gapless g (List.mem_cons_of_mem child hg)]
  | fill g new _ _ => exact absurd (List.mem_cons_self ..) (gapless g)

namespace Store

/-- Whether a relation between stores holds over every small step in which space is made. -/
structure Gentle (R : Store → Store → Prop) : Prop extends Chains R where
  cell : ∀ s n, n.location = none → n.isHeader = false → n.written = false → n.formula = none →
    R s (s.addCell n).2
  vector : ∀ s n, n.header = none → n.headerInserted = false → R s (s.addVector n).2
  frame : ∀ s n, n.table = none → n.schema = [] → R s (s.addFrame n).2
  stack : ∀ s n, R s (s.addStack n).2
  attributes : ∀ s e f, R s (s.updateAttributes e f)
  /-- The children may have been worked out some steps earlier. -/
  children : ∀ {s t e l}, R s t →
    (∀ c, (s.children e).head? = some (.cell c) → l.head? = some (.cell c)) →
    (isFrame e = true → Refills (s.children e) l) → R s (t.setChildren e l)

end Store

namespace StoreM

open Store

variable {R : Store → Store → Prop} {s t : Store}

/-! ## Header cells -/

section

variable (h : Chains R)
  (cell : ∀ s n, n.location = none → n.written = false → n.formula = none → R s (s.addCell n).2)
  (front : ∀ s v c, R s (s.updateVector v fun n =>
    { n with children := .cell c :: n.children, headerInserted := true }))

include h cell front

theorem insertHeader_relates (v : VectorId) : Relates R (insertHeader v) := by
  refine h.bind h.get fun s => ?_
  dsimp only
  split
  case h_1 => exact h.bind (fun s => cell s _ rfl rfl rfl) fun c => .modify fun s => front s v c
  case h_2 => exact h.pure _

theorem insertHeaders_relates (root : Element) : Relates R (insertHeaders root) := by
  refine h.bind h.get fun s => h.bind (h.forIn (fun e _ => ?_) _) fun _ => h.pure _
  cases e with
  | vector v => exact h.bind (insertHeader_relates h cell front v) fun _ => h.pure _
  | _ => exact h.pure _

end

/-! ## Margins and padding -/

theorem surround_relates (h : Gentle R) (inner : Element) (sides : Sides Nat) (fill : Bool) :
    Relates R (surround inner sides fill) := by
  have around : ∀ n, Relates R (do return .stack (← newStack n) : StoreM Element) :=
    fun n => h.bind (fun s => h.stack s n) fun _ => h.pure _
  refine h.bind (fun s => h.stack s _) fun middle => h.bind h.get fun s => .ite ?_ (around _)
  exact h.bind (.modify fun s => h.attributes s inner _) fun _ => around _

theorem wrapChild_relates (h : Gentle R) (inFrame : Bool) (child : Element) :
    Relates R (wrapChild inFrame child) := by
  refine h.bind h.get fun s => ?_
  split
  case h_1 => exact h.pure _
  case h_2 a _ =>
    have margin : ∀ padded : Element, Relates R (if a.margin.isZero then
        (pure padded >>= fun wrapped => pure (wrapped, []) : StoreM (Element × List Notice))
        else surround padded a.margin.resolved false >>= fun wrapped => pure (wrapped, [])) :=
      fun padded => .ite (h.pure _) (h.bind (surround_relates h _ _ _) fun _ => h.pure _)
    split
    case isTrue => exact h.pure _
    case isFalse =>
      split
      case isTrue => exact h.bind h.get fun _ => h.pure _
      case isFalse =>
        dsimp only
        split
        case isTrue => exact margin child
        case isFalse => exact h.bind (surround_relates h _ _ _) margin

/-- A cell has neither margin nor padding. -/
theorem eq_of_wrapChild_cell {inFrame : Bool} {c : CellId} {r : Element × List Notice}
    (run : Leads (wrapChild inFrame (.cell c)) s r t) : r.1 = .cell c := by
  obtain ⟨_, _, got, run⟩ := leads_bind.1 run
  obtain ⟨rfl, rfl⟩ := leads_get.1 got
  obtain ⟨rfl, -⟩ := leads_pure.1 run
  rfl

theorem wrapChildren_relates (h : Gentle R) {below : Element → StoreM (List Notice)}
    (hbelow : ∀ e, Relates R (below e)) (inFrame : Bool) (l : List Element) :
    Relates R (wrapChildren below inFrame l) := by
  induction l with
  | nil => exact h.pure _
  | cons child rest ih =>
      exact h.bind (hbelow child) fun _ => h.bind (wrapChild_relates h inFrame child) fun _ =>
        h.bind ih fun _ => h.pure _

theorem head?_wrapChildren {below : Element → StoreM (List Notice)} {inFrame : Bool}
    {l : List Element} {r : List Element × List Notice} {c : CellId}
    (run : Leads (wrapChildren below inFrame l) s r t) (first : l.head? = some (.cell c)) :
    r.1.head? = some (.cell c) := by
  cases l with
  | nil => cases first
  | cons child rest =>
      obtain rfl : child = .cell c := Option.some.inj first
      simp only [wrapChildren, leads_bind, leads_pure] at run
      obtain ⟨_, _, -, _, _, wrapped, _, _, -, rfl, -⟩ := run
      exact congrArg some (eq_of_wrapChild_cell wrapped)

/-- In a frame nothing is put around the children. -/
theorem eq_of_wrapChild_inFrame {child : Element} {r : Element × List Notice}
    (run : Leads (wrapChild true child) s r t) : r.1 = child := by
  obtain ⟨_, _, got, run⟩ := leads_bind.1 run
  obtain ⟨rfl, rfl⟩ := leads_get.1 got
  split at run
  case h_1 =>
    obtain ⟨rfl, -⟩ := leads_pure.1 run
    rfl
  case h_2 =>
    split at run
    case isTrue =>
      obtain ⟨rfl, -⟩ := leads_pure.1 run
      rfl
    case isFalse =>
      obtain ⟨_, _, -, run⟩ := leads_bind.1 run
      obtain ⟨rfl, -⟩ := leads_pure.1 run
      rfl

theorem eq_of_wrapChildren_inFrame {below : Element → StoreM (List Notice)} {l : List Element}
    {r : List Element × List Notice} (run : Leads (wrapChildren below true l) s r t) : r.1 = l := by
  induction l generalizing s r t with
  | nil =>
      obtain ⟨rfl, -⟩ := leads_pure.1 run
      rfl
  | cons child rest ih =>
      simp only [wrapChildren, leads_bind, leads_pure] at run
      obtain ⟨_, _, -, _, _, wrapped, _, _, others, rfl, -⟩ := run
      exact congrArg₂ List.cons (eq_of_wrapChild_inFrame wrapped) (ih others)

theorem wrapWithin_relates (h : Gentle R) (fuel : Nat) (e : Element) :
    Relates R (wrapWithin fuel e) := by
  induction fuel generalizing e with
  | zero => exact h.pure _
  | succ fuel ih =>
      refine .ite (h.pure _) fun s => ?_
      have children := wrapChildren_relates h ih (isFrame e) (s.children e)
      refine h.children (children s) (fun c first => head?_wrapChildren rfl first) fun frame => ?_
      rw [frame]
      exact (eq_of_wrapChildren_inFrame rfl).symm ▸ .refl _

theorem wrapSpacing_relates (h : Gentle R) (e : Element) : Relates R (wrapSpacing e) :=
  h.bind h.get fun _ => wrapWithin_relates h _ e

/-! ## Gaps -/

theorem gapCells_relates (h : Gentle R) (g : Gap) (count : Nat) : Relates R (gapCells g count) :=
  h.mapM (fun _ => h.bind (fun s => h.cell s _ rfl rfl rfl rfl) fun _ => h.pure _) _

theorem gapVector_relates (h : Gentle R) (g : Gap) (o : Orientation) (length : Nat) :
    Relates R (gapVector g o length) :=
  h.bind (gapCells_relates h g length) fun _ s => h.vector s _ rfl rfl

theorem gapVectors_relates (h : Gentle R) (g : Gap) (o : Orientation) (length : Nat) :
    Relates R (gapVectors g o length) :=
  h.bind (h.mapM (fun _ => gapVector_relates h g o length) _) fun _ => h.pure _

theorem gapBlock_relates (h : Gentle R) (g : Gap) (o : Orientation) (across : Nat) :
    Relates R (gapBlock g o across) :=
  h.bind (gapVectors_relates h g _ _) fun _ => h.bind (fun s => h.frame s _ rfl rfl) fun _ => h.pure _

/-- A cell that stands in front stays there when the gaps behind it are replaced. -/
theorem head?_flatten {replace : Element → StoreM (List Element)} {l : List Element}
    {lists : List (List Element)} {c : CellId} (run : Leads (l.mapM replace) s lists t)
    (cell : replace (.cell c) = pure [.cell c]) (first : l.head? = some (.cell c)) :
    lists.flatten.head? = some (.cell c) := by
  cases l with
  | nil => cases first
  | cons child rest =>
      obtain rfl : child = .cell c := Option.some.inj first
      simp only [List.mapM_cons, cell, leads_bind, leads_pure] at run
      obtain ⟨_, _, ⟨rfl, -⟩, _, _, -, rfl, -⟩ := run
      rfl

theorem refills_flatten {replace : Element → StoreM (List Element)} {l : List Element}
    {lists : List (List Element)} (run : Leads (l.mapM replace) s lists t)
    (others : ∀ child, (∀ g, child ≠ .gap g) → replace child = pure [child]) :
    Refills l lists.flatten := by
  induction l generalizing s t lists with
  | nil =>
      obtain ⟨rfl, -⟩ := leads_pure.1 run
      exact .nil
  | cons child rest ih =>
      simp only [List.mapM_cons, leads_bind, leads_pure] at run
      obtain ⟨new, m, first, lists, _, later, rfl, -⟩ := run
      have below := ih later
      by_cases gap : ∃ g, child = .gap g
      · obtain ⟨g, rfl⟩ := gap
        exact .fill g new below
      · rw [others child fun g same => gap ⟨g, same⟩] at first
        obtain ⟨rfl, -⟩ := leads_pure.1 first
        exact .keep child below

theorem replaceGaps_relates (h : Gentle R) (e : Element) {replacement : Gap → StoreM (List Element)}
    (made : ∀ g, Relates R (replacement g)) : Relates R (replaceGaps e replacement) := by
  intro s
  refine h.children ?filled (fun c first => head?_flatten rfl rfl first) fun _ =>
    refills_flatten rfl fun child other => ?others
  case filled =>
    refine h.mapM (fun child => ?_) _ s
    cases child with
    | gap g => exact made g
    | _ => exact h.pure _
  case others =>
    cases child with
    | gap g => exact absurd rfl (other g)
    | _ => rfl

theorem fillUp_relates (h : Gentle R) (g : Gap) (depth : Nat) (v : VectorId) :
    Relates R (fillUp g depth v) := by
  refine h.bind h.get fun s => h.bind (gapCells_relates h g _) fun filler t => ?_
  show R t (t.updateVector v fun n => { n with children := n.children ++ filler })
  rw [updateVector_append]
  refine h.children (h.refl t) (fun c first => ?_) fun frame => by cases frame
  rw [List.head?_append, first]
  rfl

theorem explode_relates (h : Gentle R) (e : Element) : Relates R (explode e) := by
  cases e with
  | vector v => exact replaceGaps_relates h _ fun g => gapCells_relates h g g.size
  | frame f =>
      refine h.bind h.get fun s => ?_
      refine h.bind (replaceGaps_relates h _ fun g => gapVectors_relates h g _ _) fun _ => ?_
      refine h.bind h.get fun t => h.forIn (fun v _ => ?_) _
      exact h.bind (fillUp_relates h _ _ v) fun _ => h.pure _
  | stack k =>
      refine h.bind h.get fun s => replaceGaps_relates h _ fun g => ?_
      exact h.bind (gapBlock_relates h g _ _) fun _ => h.pure _
  | _ => exact h.pure _

theorem explodeWithin_relates (h : Gentle R) (fuel : Nat) (e : Element) :
    Relates R (explodeWithin fuel e) := by
  induction fuel generalizing e with
  | zero => exact h.pure _
  | succ fuel ih =>
      refine h.bind h.get fun s => ?_
      exact h.bind (h.forIn (fun child _ => h.bind (ih child) fun _ => h.pure _) _) fun _ =>
        explode_relates h e

theorem explodeGaps_relates (h : Gentle R) (e : Element) : Relates R (explodeGaps e) :=
  h.bind h.get fun _ => explodeWithin_relates h _ e

end StoreM

end Spreadsheet
