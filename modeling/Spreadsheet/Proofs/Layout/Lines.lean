import Spreadsheet.Resolve.Call
import Spreadsheet.Proofs.Layout.Tables

/-!
# The line across a frame

A call with a series of results reads one line across a frame at each position: from the cell at the
position in the first vector to the cell at the position in the last one.  Positions count cells, and
header cells and gaps move the cells of each vector on their own.  So the two ends are on one line of
the sheet exactly if equally much stands in front of them.
-/

namespace Spreadsheet

/-! ## Ends of a line -/

theorem getElem?_of_mapM_ok {ε α β : Type} {f : α → Except ε β} {l : List α} {l' : List β}
    (h : l.mapM f = .ok l') {k : Nat} {a : α} (ha : l[k]? = some a) :
    ∃ b, f a = .ok b ∧ l'[k]? = some b := by
  induction l generalizing l' k with
  | nil => simp at ha
  | cons x l ih =>
      simp only [List.mapM_cons, bind_eq_ok_iff, pure, Except.pure, Except.ok.injEq] at h
      obtain ⟨y, first, rest, others, rfl⟩ := h
      cases k with
      | zero =>
          obtain rfl : x = a := by simpa using ha
          exact ⟨y, first, rfl⟩
      | succ k => exact ih others (by simpa using ha)

/-- A frame as a call with several positions sees it. -/
def Shape.ofFrame (s : Store) (f : FrameId) : Shape :=
  .frame ((s.frameVectors f).map fun v => (s.vectorCells v).map Formula.ref)
    (s.frame f).orientation (.range (.frame f) false)

/-- Each of the calls that a call with several positions makes has the line of a frame at its position
for an operand. -/
theorem operand_of_callValue {s : Store} {name : String} {args : List Value}
    {requested : Option Dimension} {t : Series}
    (h : callValue s name args requested = .ok (.grid (.series t))) {k : Nat} {f : FrameId}
    (operand : args[k]? = some (.element (.frame f))) {i : Nat} {upper : String}
    {operands : List Formula} (item : t.items[i]? = some (.call upper operands)) :
    operands[k]? = some (Shape.atPosition i (.ofFrame s f)) := by
  simp only [callValue, bind_eq_ok_iff] at h
  obtain ⟨name', -, several, -, h⟩ := h
  split at h
  case isTrue =>
    obtain ⟨shapes, mapped, h⟩ := bind_eq_ok_iff.1 h
    cases h
    obtain ⟨shape, here, found⟩ := getElem?_of_mapM_ok mapped operand
    cases here
    simp only [List.getElem?_map, Option.map_eq_some_iff, Formula.call.injEq] at item
    obtain ⟨j, hj, -, rfl⟩ := item
    obtain rfl : j = i := by
      obtain ⟨_, rfl⟩ := List.getElem?_eq_some_iff.1 hj
      simp
    rw [List.getElem?_map, found]
    rfl
  case isFalse =>
    obtain ⟨operands, -, h⟩ := bind_eq_ok_iff.1 h
    cases h

/-- A line across a frame goes from the cell at its position in the first vector to that in the last. -/
theorem ends_of_atPosition {s : Store} {f : FrameId} {i : Nat} {c d : CellId}
    (h : Shape.atPosition i (.ofFrame s f) = .span c d) :
    ∃ v ∈ (s.frameVectors f).head?, ∃ w ∈ (s.frameVectors f).getLast?,
      (s.vectorCells v)[i]? = some c ∧ (s.vectorCells w)[i]? = some d := by
  have items : ∀ (o : Option VectorId) (x : Formula),
      (o.map fun v => (s.vectorCells v).map Formula.ref).bind (·[i]?) = some x →
        ∃ v ∈ o, ∃ c, (s.vectorCells v)[i]? = some c ∧ x = .ref c := by
    intro o x hx
    cases o with
    | none => cases hx
    | some v =>
        have hx : ((s.vectorCells v).map Formula.ref)[i]? = some x := hx
        rw [List.getElem?_map] at hx
        obtain ⟨c, hc, rfl⟩ := Option.map_eq_some_iff.1 hx
        exact ⟨v, rfl, c, hc, rfl⟩
  simp only [Shape.ofFrame, Shape.atPosition, List.head?_map, List.getLast?_map] at h
  split at h
  case h_1 first last =>
    obtain ⟨rfl, rfl⟩ := Formula.span.inj h
    obtain ⟨v, hv, c', hc, same⟩ := items _ _ first
    obtain ⟨w, hw, d', hd, same'⟩ := items _ _ last
    cases same
    cases same'
    exact ⟨v, hv, w, hw, hc, hd⟩
  case h_2 => cases h
  case h_3 => cases h

namespace Store

variable {s : Store} {l : Location}

/-- How much stands in front of a cell in a vector. -/
def ahead (s : Store) (v : VectorId) (c : CellId) : Nat :=
  s.lengthAlong (s.vector v).orientation
    ((s.children (.vector v)).takeWhile fun e => asCell? e != some c)

theorem split_at_cell {children : List Element} {c : CellId} (h : .cell c ∈ children) :
    ∃ after, children = (children.takeWhile fun e => asCell? e != some c) ++ .cell c :: after := by
  induction children with
  | nil => cases h
  | cons e rest ih =>
      by_cases here : asCell? e = some c
      · refine ⟨rest, ?_⟩
        rw [List.takeWhile_cons_of_neg (by simp [here]), asCell?_eq_some.1 here]
        rfl
      · have later : .cell c ∈ rest := by
          rcases List.mem_cons.1 h with rfl | later
          · exact absurd rfl here
          · exact later
        obtain ⟨after, split⟩ := ih later
        refine ⟨after, ?_⟩
        rw [List.takeWhile_cons_of_pos (by simpa using here), List.cons_append, ← split]

/-- A cell below a vector is one of its children. -/
theorem Regular.mem_children_of_reach (h : s.Regular) {v : VectorId} {c : CellId}
    (reach : Reach s (.vector v) (.cell c)) : .cell c ∈ s.children (.vector v) := by
  rcases reach.eq_or_child with same | ⟨child, below, reach⟩
  · cases same
  · rcases reach.eq_or_child with same | ⟨x, below', -⟩
    · rwa [same]
    · have lone : child.isContainer = false := h.takes (.vector v) child below
      rw [isContainer_of_child below'] at lone
      cases lone

/-- Where a cell of a frame stands on the axis across the frame. -/
theorem Regular.position_in_frame (h : s.Regular) (acyclic : s.Acyclic) {f : FrameId} {v : VectorId}
    {c : CellId} (hl : s.location? (.frame f) = some l)
    (arranged : ∀ x, Reach s (.frame f) x → Arranged s x) (hv : v ∈ s.frameVectors f)
    (hc : .cell c ∈ s.children (.vector v)) :
    ∃ place, (s.cell c).location = some place ∧
      (s.frame f).orientation.cross.position place =
        (s.frame f).orientation.cross.position l + s.ahead v c := by
  have axis := h.orientation_of_mem hv
  have below := mem_frameVectors.1 hv
  obtain ⟨before, after, split⟩ := List.append_of_mem below
  have bearing : s.leaves (.vector v) ≠ [] :=
    leaves_ne_nil_iff.2 ⟨c, acyclic.mem_leaves.2 (reach_of_child hc)⟩
  have corner := (arranged _ .root).location_child rfl hl split bearing
  obtain ⟨rest, inside⟩ := split_at_cell hc
  have place := (arranged _ (reach_of_child below)).location_child rfl corner inside
    (by simp [leaves_cell acyclic])
  refine ⟨_, place, ?_⟩
  rw [axis, position_along, position_cross_along, ahead, axis]

end Store

open Store

/-- Two columns of three places, the second one with a gap in the middle. -/
def Store.gappedFrame : Store where
  cells := ⟨#[{ value := .text "1" }, { value := .text "2" }, { value := .text "3" },
    { value := .text "4" }, { value := .text "5" }]⟩
  vectors := ⟨#[{ orientation := .vertical, children := [.cell ⟨0⟩, .cell ⟨1⟩, .cell ⟨2⟩] },
    { orientation := .vertical, children := [.cell ⟨3⟩, .gap { size := 1 }, .cell ⟨4⟩] }]⟩
  frames := ⟨#[{ orientation := .horizontal, children := [.vector ⟨0⟩, .vector ⟨1⟩] }]⟩

/-- The greatest of each line of the frame. -/
def Series.greatest : Series where
  items := [.call "MAX" [.span ⟨0⟩ ⟨3⟩], .call "MAX" [.span ⟨1⟩ ⟨4⟩]]
  orientation := .vertical

/-- The state after the columns are laid out. -/
def Build.gappedFrame : Build :=
  (BuildM.layOut (.frame ⟨0⟩) "S" {} { store := .gappedFrame } : Except SheetError Unit × Build).2

theorem gappedFrame_wellFormed : Store.gappedFrame.WellFormed :=
  wellFormed_of_falling (fun | .frame _ => 2 | .vector _ => 1 | _ => 0) (by decide) (by decide)

theorem gappedFrame_regular : Store.gappedFrame.Regular :=
  regular_of_containers (by decide) (by decide)

theorem gappedFrame_runs :
    Runs (BuildM.layOut (.frame ⟨0⟩) "S" {}) { store := .gappedFrame } () Build.gappedFrame :=
  runs_of_eq_ok (by decide +kernel)

theorem gappedFrame_call : callValue .gappedFrame "MAX" [.element (.frame ⟨0⟩)] (some .vector) =
    .ok (.grid (.series .greatest)) := by
  rfl

end Spreadsheet
