import Spreadsheet.Proofs.Layout.Ranges
import Spreadsheet.Proofs.Layout.Titles

/-!
# The columns of a table

If all cells of a frame of columns are one column wide, its vectors stand in adjacent columns, the
first one in the first column of the frame's range and the last one in the last.  The first row of the
range then holds the header cells, each in the column of its vector.
-/

namespace Spreadsheet

theorem getElem?_of_forall₂ {α β : Type} {R : α → β → Prop} {l : List α} {l' : List β}
    (h : List.Forall₂ R l l') {i : Nat} {b : β} (hb : l'[i]? = some b) :
    ∃ a, l[i]? = some a ∧ R a b := by
  induction h generalizing i with
  | nil => cases hb
  | @cons a b' l l' here _ ih =>
      cases i with
      | zero => exact ⟨a, rfl, Option.some.inj hb ▸ here⟩
      | succ i => exact ih hb

theorem exists_split_of_filterMap {α β : Type} {pick : α → Option β} {l : List α} {i : Nat} {b : β}
    (h : (l.filterMap pick)[i]? = some b) : ∃ before a after, l = before ++ a :: after ∧
      pick a = some b ∧ (before.filterMap pick).length = i := by
  induction l generalizing i with
  | nil => cases h
  | cons x l ih =>
      cases picked : pick x with
      | none =>
          rw [List.filterMap_cons_none picked] at h
          obtain ⟨before, a, after, rfl, found, length⟩ := ih h
          exact ⟨x :: before, a, after, rfl, found, by rwa [List.filterMap_cons_none picked]⟩
      | some y =>
          rw [List.filterMap_cons_some picked] at h
          cases i with
          | zero => exact ⟨[], x, l, rfl, picked.trans h, rfl⟩
          | succ i =>
              obtain ⟨before, a, after, rfl, found, length⟩ := ih h
              refine ⟨x :: before, a, after, rfl, found, ?_⟩
              rw [List.filterMap_cons_some picked, List.length_cons, length]

namespace Store

variable {s : Store} {f : FrameId} {v : VectorId} {l first last : Location}

/-! ## Single columns -/

/-- A column whose cells are all one column wide is one column wide. -/
theorem Regular.cols_vector (h : s.Regular) (acyclic : s.Acyclic)
    (column : (s.vector v).orientation = .vertical)
    (single : ∀ c ∈ s.leaves (.vector v), (s.cell c).merge.cols = 1) :
    (s.extent (.vector v)).cols = 1 := by
  have each : ∀ child ∈ s.children (.vector v), (s.extent child).cols ≤ 1 := by
    intro child below
    have lone : child.isContainer = false := h.takes _ child below
    cases child with
    | cell c =>
        have leaf : c ∈ s.leaves (.vector v) := acyclic.mem_leaves.2 (reach_of_child below)
        rw [acyclic.extent_eq]
        exact (single c leaf).le
    | vector w => cases lone
    | frame g => cases lone
    | stack k => cases lone
    | _ =>
        rw [acyclic.extent_eq_zero lone rfl]
        exact Nat.zero_le 1
  have narrow : (((s.children (.vector v)).map s.extent).map Extent.cols).foldl max 0 ≤ 1 := by
    refine foldl_max_le_iff.2 ⟨Nat.zero_le 1, fun n hn => ?_⟩
    rw [List.map_map] at hn
    obtain ⟨child, below, rfl⟩ := List.mem_map.1 hn
    exact each child below
  have cols : (s.extent (.vector v)).cols =
      max ((((s.children (.vector v)).map s.extent).map Extent.cols).foldl max 0) 1 := by
    rw [acyclic.extent_eq]
    simp only [extentOver, column]
    rfl
  rw [cols]
  exact max_eq_right narrow

/-- How far the children of a frame of single columns reach: as far as there are columns. -/
theorem lengthAlong_columns {children : List Element}
    (columns : ∀ v, .vector v ∈ children → (s.extent (.vector v)).cols = 1)
    (others : ∀ child ∈ children, asVector? child = none → s.extent child = ⟨0, 0⟩) :
    s.lengthAlong .horizontal children = (children.filterMap asVector?).length := by
  induction children with
  | nil => rfl
  | cons child rest ih =>
      have below := ih (fun v hv => columns v (List.mem_cons_of_mem child hv))
        fun c hc => others c (List.mem_cons_of_mem child hc)
      rw [lengthAlong_cons, below]
      cases picked : asVector? child with
      | none =>
          rw [others child (by simp) picked, List.filterMap_cons_none picked]
          exact Nat.zero_add _
      | some v =>
          obtain rfl := asVector?_eq_some.1 picked
          have one : Orientation.horizontal.along (s.extent (.vector v)) = 1 := columns v (by simp)
          rw [one, List.filterMap_cons_some picked, List.length_cons, Nat.add_comm]

theorem Regular.column_of_mem (h : s.Regular) (horizontal : (s.frame f).orientation = .horizontal)
    (hv : v ∈ s.frameVectors f) : (s.vector v).orientation = .vertical := by
  rw [h.orientation_of_mem hv, horizontal]
  rfl

/-- The vectors of a frame of single columns stand in adjacent columns. -/
theorem Regular.location_column (h : s.Regular) (acyclic : s.Acyclic)
    (horizontal : (s.frame f).orientation = .horizontal)
    (single : ∀ c ∈ s.leaves (.frame f), (s.cell c).merge.cols = 1)
    (bearing : s.Bearing f) (hl : s.location? (.frame f) = some l)
    (arranged : Arranged s (.frame f)) {i : Nat} (hv : (s.frameVectors f)[i]? = some v) :
    s.location? (.vector v) = some ⟨l.sheet, l.row, l.col + i⟩ := by
  have columns : ∀ w, .vector w ∈ s.children (.frame f) → (s.extent (.vector w)).cols = 1 := by
    intro w hw
    apply h.cols_vector acyclic (h.column_of_mem horizontal (mem_frameVectors.2 hw))
    exact fun c hc => single c (acyclic.leaves_subset (reach_of_child hw) hc)
  have others : ∀ child ∈ s.children (.frame f), asVector? child = none →
      s.extent child = ⟨0, 0⟩ := by
    intro child below other
    have takes := h.takes (.frame f) child below
    cases child with
    | vector w => cases other
    | _ => exact acyclic.extent_eq_zero takes.1 takes.2
  obtain ⟨before, child, after, split, picked, length⟩ := exists_split_of_filterMap hv
  obtain rfl := asVector?_eq_some.1 picked
  have split : s.children (.frame f) = before ++ .vector v :: after := split
  have width : s.lengthAlong .horizontal before = i := by
    rw [← length]
    apply lengthAlong_columns
    · exact fun w hw => columns w (by simp [split, hw])
    · exact fun c hc => others c (by simp [split, hc])
  have place := arranged.location_child rfl hl split (bearing v (List.mem_of_getElem? hv))
  rw [horizontal, width] at place
  simpa [along, Location.offset, Orientation.step] using place

/-! ## Header cells in a row -/

/-- Whether the vectors of a frame stand in the columns of a block, one in each, and the first row of
the block holds what their headers are. -/
structure Columned (s : Store) (f : FrameId) (first last : Location) : Prop where
  width : first.col + (s.frameVectors f).length = last.col + 1
  titles : ∀ i v text, (s.frameVectors f)[i]? = some v → (s.vector v).header = some text →
    ∃ c, s.headerCell? v = some c ∧ (s.cell c).merge = ⟨1, 1⟩ ∧
      (s.cell c).location = some ⟨first.sheet, first.row, first.col + i⟩ ∧
      s.headerText? c = some (.text text)

theorem Regular.columned (h : s.Regular) (acyclic : s.Acyclic)
    (horizontal : (s.frame f).orientation = .horizontal)
    (single : ∀ c ∈ s.leaves (.frame f), (s.cell c).merge.cols = 1)
    (hl : s.location? (.frame f) = some l) (arranged : ∀ x, Reach s (.frame f) x → Arranged s x)
    (titled : ∀ v ∈ s.frameVectors f, s.Titled v ∧ s.pendingHeader (.vector v) = false)
    (range : s.frameRange? true f = some (first, last)) : s.Columned f first last := by
  have bearing := bearing_of_frameRange? acyclic range
  simp only [frameRange?, Option.bind_eq_bind, Option.bind_eq_some_iff, Option.pure_def,
    Option.some.injEq, Prod.mk.injEq] at range
  obtain ⟨ranges, mapped, ⟨first', _⟩, front, rfl, rfl⟩ := range
  have each := forall₂_of_mapM mapped
  have place := fun i v (hv : (s.frameVectors f)[i]? = some v) =>
    h.location_column acyclic horizontal single bearing hl (arranged _ .root) hv
  have column := fun v (hv : v ∈ s.frameVectors f) => h.column_of_mem horizontal hv
  have spread : ∀ i v range, (s.frameVectors f)[i]? = some v → s.vectorRange? true v = some range →
      ∃ stop, s.Spread true v ⟨l.sheet, l.row, l.col + i⟩ range.1 range.2 stop := by
    intro i v range hv hr
    have below := reach_of_child (mem_frameVectors.1 (List.mem_of_getElem? hv))
    exact h.spread acyclic (place i v hv) (arranged _ below) hr
  -- The range of each vector lies in its column.
  have cols : ∀ i range, ranges[i]? = some range → range.2.col = l.col + i := by
    intro i range hr
    obtain ⟨v, hv, found⟩ := getElem?_of_forall₂ each hr
    obtain ⟨stop, spread⟩ := spread i v range hv found
    rw [spread.last_eq, column v (List.mem_of_getElem? hv)]
    exact position_cross_along .vertical _ stop
  have corner : first' = l := by
    obtain ⟨v, hv, found⟩ := getElem?_of_forall₂ each ((List.head?_eq_getElem? ..).symm.trans front)
    obtain ⟨stop, spread⟩ := spread 0 v _ hv found
    have start := spread.first_eq
    rw [column v (List.mem_of_getElem? hv)] at start
    exact start
  subst corner
  refine ⟨?_, fun i v text hv header => ?_⟩
  · have count : (s.frameVectors f).length = ranges.length := each.length_eq
    have some : 0 < ranges.length := List.length_pos_of_mem (List.mem_of_head? front)
    have low : first'.col + (ranges.length - 1) ≤ (ranges.map (·.2.col)).foldl max 0 := by
      have index : ranges.length - 1 < ranges.length := by omega
      have last := List.getElem?_eq_getElem index
      rw [← cols _ _ last]
      exact le_foldl_max_of_mem (List.mem_map_of_mem (List.mem_of_getElem? last))
    have high : (ranges.map (·.2.col)).foldl max 0 ≤ first'.col + (ranges.length - 1) := by
      refine foldl_max_le_iff.2 ⟨Nat.zero_le _, fun n hn => ?_⟩
      obtain ⟨range, mem, rfl⟩ := List.mem_map.1 hn
      obtain ⟨i, hi, found⟩ := List.getElem_of_mem mem
      rw [cols i range (found ▸ List.getElem?_eq_getElem hi)]
      omega
    simp only
    omega
  · have mem := List.mem_of_getElem? hv
    obtain ⟨titled, blank⟩ := titled v mem
    have inserted : (s.vector v).headerInserted = true := by
      simpa [pendingHeader, header] using blank
    obtain ⟨c, text', front, header', reads⟩ := titled inserted
    obtain rfl : text = text' := Option.some.inj (header.symm.trans header')
    obtain ⟨d, front', merge⟩ := h.headFirst v inserted
    obtain rfl : c = d := by simpa [front] using front'
    have cell : s.headerCell? v = some c := by
      rw [children] at front
      simp [headerCell?, inserted, front, asCell?]
    obtain ⟨range, -, found⟩ := forall₂_left each mem
    obtain ⟨stop, spread⟩ := spread i v range hv found
    refine ⟨c, cell, merge, ?_, reads⟩
    rw [spread.header c cell]
    cases (s.vector v).orientation <;> rfl

end Store

end Spreadsheet
