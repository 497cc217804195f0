import Spreadsheet.Proofs.Layout.Shapes
import Spreadsheet.Proofs.Layout.Book

/-!
# The block that a frame covers

The corners of a frame are read off its vectors: the first cell of the first vector, and the furthest
row and column in which a vector ends.  With headers they enclose all cells of the frame.  Without
headers they do so exactly if no vector begins in front of the first one, that is, if the first
vector has no header or all vectors have one.
-/

namespace Spreadsheet

/-! ## Places along an axis -/

/-- Whether a place is in the rectangle between two corners. -/
def Location.Between (l first last : Location) : Prop :=
  l.sheet = first.sheet ∧ first.row ≤ l.row ∧ l.row ≤ last.row ∧ first.col ≤ l.col ∧ l.col ≤ last.col

theorem Location.between_iff (o : Orientation) {l first last : Location} :
    l.Between first last ↔ l.sheet = first.sheet ∧
      (o.position first ≤ o.position l ∧ o.position l ≤ o.position last) ∧
      o.cross.position first ≤ o.cross.position l ∧ o.cross.position l ≤ o.cross.position last := by
  cases o <;> simp only [Location.Between, Orientation.position, Orientation.cross] <;> tauto

namespace Store

variable {s : Store} {o : Orientation} {l : Location}

@[simp] theorem sheet_along (o : Orientation) (l : Location) (n : Nat) :
    (along o l n).sheet = l.sheet :=
  rfl

@[simp] theorem position_cross_along (o : Orientation) (l : Location) (n : Nat) :
    o.cross.position (along o l n) = o.cross.position l := by
  cases o <;> simp [Orientation.position, Orientation.cross, along, Location.offset, Orientation.step]

@[simp] theorem position_along_cross (o : Orientation) (l : Location) (n : Nat) :
    o.position (along o.cross l n) = o.position l := by
  simpa using position_cross_along o.cross l n

/-! ## Children one behind the other -/

theorem Acyclic.extent_eq_zero (h : s.Acyclic) {e : Element} (bare : e.isContainer = false)
    (lone : asCell? e = none) : s.extent e = ⟨0, 0⟩ := by
  rw [h.extent_eq]
  cases e with
  | cell c => cases lone
  | vector v => cases bare
  | frame f => cases bare
  | stack k => cases bare
  | _ => rfl

/-- Where the elements that are picked from a list stand, if those that are not take no space: the
first stands at the start, and none stands in front of an earlier one. -/
theorem exists_offsets {α : Type} {pick : Element → Option α} {stands : α → Nat → Prop}
    {children : List Element} {start : Nat}
    (h : ∀ before child after a, children = before ++ child :: after → pick child = some a →
      stands a (start + s.lengthAlong o before))
    (empty : ∀ child ∈ children, pick child = none → o.along (s.extent child) = 0) :
    ∃ ns, List.Forall₂ stands (children.filterMap pick) ns ∧ (start :: ns).Pairwise (· ≤ ·) ∧
      ∀ n ∈ ns.head?, n = start := by
  induction children generalizing start with
  | nil => exact ⟨[], .nil, by simp, by simp⟩
  | cons child rest ih =>
      have later : ∀ before c after a, rest = before ++ c :: after → pick c = some a →
          stands a (start + o.along (s.extent child) + s.lengthAlong o before) := by
        intro before c after a split picked
        have := h (child :: before) c after a (by rw [split]; rfl) picked
        rwa [lengthAlong_cons, ← Nat.add_assoc] at this
      obtain ⟨ns, each, sorted, first⟩ := ih later fun c hc => empty c (List.mem_cons_of_mem _ hc)
      cases picked : pick child with
      | none =>
          rw [empty child (by simp) picked, Nat.add_zero] at sorted first
          exact ⟨ns, by rwa [List.filterMap_cons_none picked], sorted, first⟩
      | some a =>
          have here : stands a start := by simpa [lengthAlong] using h [] child rest a rfl picked
          refine ⟨start :: ns, ?_, ?_, by simp⟩
          · rw [List.filterMap_cons_some picked]
            exact .cons here each
          · obtain ⟨low, sorted⟩ := List.pairwise_cons.1 sorted
            have after : ∀ n ∈ ns, start ≤ n := fun n hn => by
              have := low n hn
              omega
            refine .cons (fun n hn => ?_) (.cons after sorted)
            rcases List.mem_cons.1 hn with rfl | hn
            · exact Nat.le_refl _
            · exact after n hn

theorem forall₂_getLast? {α : Type} {R : α → Nat → Prop} {l : List α} {ns : List Nat}
    (h : List.Forall₂ R l ns) (sorted : ns.Pairwise (· ≤ ·)) {a : α} (last : l.getLast? = some a) :
    ∃ m, R a m ∧ ∀ n ∈ ns, n ≤ m := by
  induction h with
  | nil => cases last
  | @cons b n l ns here rest ih =>
      obtain ⟨low, sorted⟩ := List.pairwise_cons.1 sorted
      cases rest with
      | nil =>
          obtain rfl : b = a := by simpa using last
          exact ⟨n, here, by simp⟩
      | @cons c n' l ns _ _ =>
          rw [List.getLast?_cons_cons] at last
          obtain ⟨m, hm, above⟩ := ih sorted last
          refine ⟨m, hm, fun k hk => ?_⟩
          rcases List.mem_cons.1 hk with rfl | hk
          · exact (low n' (by simp)).trans (above n' (by simp))
          · exact above k hk

/-! ## Vectors -/

/-- How many places at the front of a vector its header cell takes. -/
def headerLength (s : Store) (v : VectorId) : Nat :=
  (s.headerCell? v).isSome.toNat

/-- A vector consists of its content and, once it is inserted, the header cell in front. -/
theorem Regular.children_vector (h : s.Regular) (v : VectorId) :
    (s.headerCell? v = none ∧ s.children (.vector v) = s.content v) ∨
      ∃ c, s.headerCell? v = some c ∧ s.children (.vector v) = .cell c :: s.content v ∧
        (s.cell c).merge = ⟨1, 1⟩ := by
  cases inserted : (s.vector v).headerInserted with
  | false => exact .inl ⟨by simp [headerCell?, inserted], by simp [content, inserted, children]⟩
  | true =>
      obtain ⟨c, first, merge⟩ := h.headFirst v inserted
      have first : (s.vector v).children.head? = some (.cell c) := first
      obtain ⟨rest, split⟩ : ∃ rest, (s.vector v).children = .cell c :: rest :=
        List.head?_eq_some_iff.1 first
      refine .inr ⟨c, ?_, ?_, merge⟩
      · simp [headerCell?, inserted, split, asCell?]
      · simp [content, inserted, children, split]

/-- Where the cells of a vector stand that is placed: behind the header cell, none in front of an
earlier one. -/
theorem Regular.vector_offsets (h : s.Regular) (acyclic : s.Acyclic) {v : VectorId}
    (hl : s.location? (.vector v) = some l) (arranged : Arranged s (.vector v)) :
    (∀ c, s.headerCell? v = some c →
      (s.cell c).location = some (along (s.vector v).orientation l 0)) ∧
    ∃ ns, List.Forall₂
        (fun c n => (s.cell c).location = some (along (s.vector v).orientation l n))
        (s.vectorCells v) ns ∧
      (s.headerLength v :: ns).Pairwise (· ≤ ·) ∧ ∀ n ∈ ns.head?, n = s.headerLength v := by
  have places : ∀ before c after, s.children (.vector v) = before ++ .cell c :: after →
      (s.cell c).location = some (along (s.vector v).orientation l
        (s.lengthAlong (s.vector v).orientation before)) := by
    intro before c after split
    exact arranged.location_child rfl hl split (by simp [leaves_cell acyclic])
  have bare : ∀ child ∈ s.children (.vector v), asCell? child = none →
      (s.vector v).orientation.along (s.extent child) = 0 := by
    intro child below none
    rw [acyclic.extent_eq_zero (h.takes _ child below) none]
    cases (s.vector v).orientation <;> rfl
  rcases h.children_vector v with ⟨header, split⟩ | ⟨c, header, split, merge⟩
  · refine ⟨fun c hc => (by rw [header] at hc; cases hc), ?_⟩
    have length : s.headerLength v = 0 := by simp [headerLength, header]
    rw [length]
    refine exists_offsets (fun before child after c hc picked => ?_)
      fun child hc none => bare child (split ▸ hc) none
    obtain rfl := asCell?_eq_some.1 picked
    rw [Nat.zero_add]
    exact places before c after (split.trans hc)
  · have first := places [] c (s.content v) split
    refine ⟨fun d hd => ?_, ?_⟩
    · obtain rfl : c = d := by simpa [header] using hd
      simpa [lengthAlong] using first
    · have length : s.headerLength v = 1 := by simp [headerLength, header]
      rw [length]
      refine exists_offsets (fun before child after d hd picked => ?_)
        fun child hc none => bare child (split ▸ List.mem_cons_of_mem _ hc) none
      obtain rfl := asCell?_eq_some.1 picked
      have place := places (.cell c :: before) d after (by rw [split, hd]; rfl)
      have one : (s.vector v).orientation.along (s.extent (.cell c)) = 1 := by
        rw [acyclic.extent_eq]
        simp only [extentOver, merge]
        cases (s.vector v).orientation <;> rfl
      rwa [lengthAlong_cons, one] at place

/-- How far the content of a vector reaches that is placed, and where its range lies. -/
structure Spread (s : Store) (includeHeaders : Bool) (v : VectorId) (l first last : Location)
    (stop : Nat) : Prop where
  first_eq : first = along (s.vector v).orientation l
    (if includeHeaders then 0 else s.headerLength v)
  last_eq : last = along (s.vector v).orientation l stop
  header : ∀ c, s.headerCell? v = some c →
    (s.cell c).location = some (along (s.vector v).orientation l 0)
  content : ∀ c ∈ s.vectorCells v, ∃ n, (s.cell c).location =
    some (along (s.vector v).orientation l n) ∧ s.headerLength v ≤ n ∧ n ≤ stop
  begins : includeHeaders = false → ∃ c ∈ s.vectorCells v, (s.cell c).location =
    some (along (s.vector v).orientation l (s.headerLength v))

theorem Regular.spread (h : s.Regular) (acyclic : s.Acyclic) {v : VectorId}
    (hl : s.location? (.vector v) = some l) (arranged : Arranged s (.vector v))
    {includeHeaders : Bool} {first last : Location}
    (range : s.vectorRange? includeHeaders v = some (first, last)) :
    ∃ stop, s.Spread includeHeaders v l first last stop := by
  obtain ⟨header, ns, each, sorted, front⟩ := h.vector_offsets acyclic hl arranged
  obtain ⟨low, sorted⟩ := List.pairwise_cons.1 sorted
  simp only [vectorRange?, Option.bind_eq_bind, Option.bind_eq_some_iff, Option.pure_def,
    Option.some.injEq, Prod.mk.injEq] at range
  obtain ⟨c, begins, l₁, hl₁, l₂, hl₂, rfl, rfl⟩ := range
  have foremost : ∀ d, (s.vectorCells v).head? = some d → (s.cell d).location =
      some (along (s.vector v).orientation l (s.headerLength v)) := by
    intro d hd
    generalize s.vectorCells v = cells at each hd
    cases each with
    | nil => cases hd
    | @cons _ n _ _ here _ =>
        obtain rfl := Option.some.inj hd
        rw [here, front n rfl]
  have corner : (s.cell c).location = some (along (s.vector v).orientation l
      (if includeHeaders then 0 else s.headerLength v)) := by
    cases includeHeaders with
    | false => exact foremost c (by simpa using begins)
    | true =>
        cases cell : s.headerCell? v with
        | none =>
            have length : s.headerLength v = 0 := by simp [headerLength, cell]
            simpa [length] using foremost c (by simpa [cell] using begins)
        | some d =>
            obtain rfl : d = c := by simpa [cell] using begins
            exact header d cell
  obtain rfl := Option.some.inj (hl₁.symm.trans corner)
  have begins : includeHeaders = false → ∃ c ∈ s.vectorCells v, (s.cell c).location =
      some (along (s.vector v).orientation l (s.headerLength v)) := by
    rintro rfl
    have first : (s.vectorCells v).head? = some c := by simpa using begins
    exact ⟨c, List.mem_of_head? first, foremost c first⟩
  cases end_ : (s.vectorCells v).getLast? with
  | none =>
      have empty : s.vectorCells v = [] := List.getLast?_eq_none_iff.1 end_
      rw [end_, Option.getD_none, corner] at hl₂
      refine ⟨_, rfl, (Option.some.inj hl₂).symm, header, fun d hd => ?_, begins⟩
      rw [empty] at hd
      cases hd
  | some d =>
      rw [end_, Option.getD_some] at hl₂
      obtain ⟨stop, place, above⟩ := forall₂_getLast? each sorted end_
      refine ⟨stop, rfl, Option.some.inj (hl₂.symm.trans place), header, fun e he => ?_, begins⟩
      obtain ⟨n, hn, place⟩ := forall₂_left each he
      exact ⟨n, place, low n hn, above n hn⟩

/-! ## Frames -/

/-- The cells of a frame without the header cells. -/
def frameContent (s : Store) (f : FrameId) : List CellId :=
  (s.frameVectors f).flatMap s.vectorCells

/-- The header cells of a frame. -/
def frameHeaders (s : Store) (f : FrameId) : List CellId :=
  (s.frameVectors f).filterMap s.headerCell?

/-- Whether all of some cells are placed in the rectangle between two corners. -/
def Encloses (s : Store) (first last : Location) (cells : List CellId) : Prop :=
  ∀ c ∈ cells, ∃ l, (s.cell c).location = some l ∧ l.Between first last

theorem Regular.orientation_of_mem (h : s.Regular) {f : FrameId} {v : VectorId}
    (hv : v ∈ s.frameVectors f) : (s.vector v).orientation = (s.frame f).orientation.cross :=
  Option.some.inj (h.takes _ _ (mem_frameVectors.1 hv))

theorem mem_children_of_vectorCells {v : VectorId} {c : CellId} (hc : c ∈ s.vectorCells v) :
    .cell c ∈ s.children (.vector v) := by
  obtain ⟨child, below, same⟩ := List.mem_filterMap.1 hc
  rw [asCell?_eq_some.1 same] at below
  exact List.mem_of_mem_drop below

theorem mem_children_of_headerCell? {v : VectorId} {c : CellId} (hc : s.headerCell? v = some c) :
    .cell c ∈ s.children (.vector v) := by
  simp only [headerCell?] at hc
  split at hc
  case isTrue =>
    obtain ⟨child, first, same⟩ := Option.bind_eq_some_iff.1 hc
    rw [asCell?_eq_some.1 same] at first
    exact List.mem_of_head? first
  case isFalse => cases hc

/-- The cell in which the range of a vector begins is one of its children. -/
theorem mem_children_of_begins {includeHeaders : Bool} {v : VectorId} {c : CellId}
    (hc : ((if includeHeaders then s.headerCell? v else none) <|> (s.vectorCells v).head?) = some c) :
    .cell c ∈ s.children (.vector v) := by
  rcases (Option.orElse_eq_some _ _ _).1 hc with first | ⟨-, first⟩
  · split at first
    case isTrue => exact mem_children_of_headerCell? first
    case isFalse => cases first
  · exact mem_children_of_vectorCells (List.mem_of_head? first)

theorem leaves_of_vectorRange? (acyclic : s.Acyclic) {includeHeaders : Bool} {v : VectorId}
    {range : Location × Location} (h : s.vectorRange? includeHeaders v = some range) :
    s.leaves (.vector v) ≠ [] := by
  simp only [vectorRange?, Option.bind_eq_bind, Option.bind_eq_some_iff] at h
  obtain ⟨c, begins, -⟩ := h
  exact leaves_ne_nil_iff.2
    ⟨c, acyclic.mem_leaves.2 (reach_of_child (mem_children_of_begins begins))⟩

/-- Whether all vectors of a frame have cells below them. -/
def Bearing (s : Store) (f : FrameId) : Prop :=
  ∀ v ∈ s.frameVectors f, s.leaves (.vector v) ≠ []

theorem bearing_of_frameRange? (acyclic : s.Acyclic) {includeHeaders : Bool} {f : FrameId}
    {range : Location × Location} (h : s.frameRange? includeHeaders f = some range) :
    s.Bearing f := by
  simp only [frameRange?, Option.bind_eq_bind, Option.bind_eq_some_iff] at h
  obtain ⟨ranges, mapped, -⟩ := h
  intro v hv
  obtain ⟨range, -, hr⟩ := forall₂_left (forall₂_of_mapM mapped) hv
  exact leaves_of_vectorRange? acyclic hr

/-- The vectors of a placed frame stand one behind the other, the first in the frame's corner. -/
theorem Regular.frame_offsets (h : s.Regular) (acyclic : s.Acyclic) {f : FrameId}
    (hl : s.location? (.frame f) = some l) (arranged : Arranged s (.frame f))
    (bearing : s.Bearing f) : ∃ ns, List.Forall₂
        (fun v n => s.location? (.vector v) = some (along (s.frame f).orientation l n))
        (s.frameVectors f) ns ∧ ∀ n ∈ ns.head?, n = 0 := by
  suffices offsets : ∃ ns, List.Forall₂
      (fun v n => s.location? (.vector v) = some (along (s.frame f).orientation l n))
      (s.frameVectors f) ns ∧ (0 :: ns).Pairwise (· ≤ ·) ∧ ∀ n ∈ ns.head?, n = 0 by
    obtain ⟨ns, each, -, front⟩ := offsets
    exact ⟨ns, each, front⟩
  apply exists_offsets
  · intro before child after v split picked
    obtain rfl := asVector?_eq_some.1 picked
    have below : v ∈ s.frameVectors f := mem_frameVectors.2 (by simp [children, split])
    rw [Nat.zero_add]
    exact arranged.location_child rfl hl split (bearing v below)
  · intro child below other
    have takes := h.takes (.frame f) child below
    have bare : child.isContainer = false ∧ asCell? child = none := by
      cases child with
      | vector v => cases other
      | _ => exact takes
    rw [acyclic.extent_eq_zero bare.1 bare.2]
    cases (s.frame f).orientation <;> rfl

theorem position_furthest (o : Orientation) (sheet : String) (ranges : List (Location × Location)) :
    o.position ⟨sheet, (ranges.map (·.2.row)).foldl max 0, (ranges.map (·.2.col)).foldl max 0⟩ =
      (ranges.map fun range => o.position range.2).foldl max 0 := by
  cases o <;> rfl

/-- Which places of a vector are between the corners of its frame: those that are not in front of
the first cell of the frame's range. -/
theorem Regular.between_corners (h : s.Regular) (acyclic : s.Acyclic) {f : FrameId}
    (hl : s.location? (.frame f) = some l) (arranged : ∀ x, Reach s (.frame f) x → Arranged s x)
    {includeHeaders : Bool} {first last : Location}
    (range : s.frameRange? includeHeaders f = some (first, last)) :
    ∃ v₁, (s.frameVectors f).head? = some v₁ ∧ ∀ v ∈ s.frameVectors f, ∃ corner start stop end_,
      s.Spread includeHeaders v corner start stop end_ ∧
        ∀ m ≤ end_, (along (s.vector v).orientation corner m).Between first last ↔
          (if includeHeaders then 0 else s.headerLength v₁) ≤ m := by
  have bearing := bearing_of_frameRange? acyclic range
  simp only [frameRange?, Option.bind_eq_bind, Option.bind_eq_some_iff, Option.pure_def,
    Option.some.injEq, Prod.mk.injEq] at range
  obtain ⟨ranges, mapped, ⟨first', _⟩, front, rfl, rfl⟩ := range
  have each := forall₂_of_mapM mapped
  obtain ⟨ns, places, zero⟩ := h.frame_offsets acyclic hl (arranged _ .root) bearing
  have spread : ∀ v ∈ s.frameVectors f, ∀ corner, s.location? (.vector v) = some corner →
      ∀ range, s.vectorRange? includeHeaders v = some range →
        ∃ end_, s.Spread includeHeaders v corner range.1 range.2 end_ := by
    intro v hv corner hc range hr
    exact h.spread acyclic hc (arranged _ (reach_of_child (mem_frameVectors.1 hv))) hr
  -- The first vector stands in the corner of the frame.
  obtain ⟨v₁, head, begins⟩ : ∃ v₁, (s.frameVectors f).head? = some v₁ ∧
      first' = along (s.frame f).orientation.cross l
        (if includeHeaders then 0 else s.headerLength v₁) := by
    have axis := fun v (hv : v ∈ s.frameVectors f) => h.orientation_of_mem hv
    generalize s.frameVectors f = vectors at each places spread axis
    cases each with
    | nil => cases front
    | @cons v₁ range _ _ hr _ =>
        cases places with
        | @cons _ n _ _ place _ =>
            obtain rfl := Option.some.inj front
            obtain ⟨_, here⟩ := spread v₁ (by simp) _ place _ hr
            refine ⟨v₁, rfl, here.first_eq.trans ?_⟩
            rw [axis v₁ (by simp), zero n rfl]
            rfl
  refine ⟨v₁, head, fun v hv => ?_⟩
  obtain ⟨n, -, place⟩ := forall₂_left places hv
  obtain ⟨range, hrange, hr⟩ := forall₂_left each hv
  obtain ⟨end_, spread⟩ := spread v hv _ place range hr
  refine ⟨_, _, _, end_, spread, fun m hm => ?_⟩
  have furthest : ∀ o : Orientation, o.position range.2 ≤ o.position
      ⟨first'.sheet, (ranges.map (·.2.row)).foldl max 0, (ranges.map (·.2.col)).foldl max 0⟩ := by
    intro o
    rw [position_furthest]
    exact le_foldl_max_of_mem (List.mem_map_of_mem hrange)
  have far := furthest (s.frame f).orientation
  have deep := furthest (s.frame f).orientation.cross
  rw [Location.between_iff (s.frame f).orientation]
  rw [spread.last_eq, h.orientation_of_mem hv] at far deep
  rw [h.orientation_of_mem hv, begins] at *
  simp only [position_along, position_cross_along, position_along_cross, sheet_along,
    true_and] at *
  omega

/-- With headers, the corners of a frame enclose all its cells. -/
theorem Regular.encloses_headers (h : s.Regular) (acyclic : s.Acyclic) {f : FrameId}
    (hl : s.location? (.frame f) = some l) (arranged : ∀ x, Reach s (.frame f) x → Arranged s x)
    {first last : Location} (range : s.frameRange? true f = some (first, last)) :
    s.Encloses first last (s.frameHeaders f ++ s.frameContent f) := by
  obtain ⟨v₁, -, between⟩ := h.between_corners acyclic hl arranged range
  intro c hc
  rcases List.mem_append.1 hc with hc | hc
  · obtain ⟨v, hv, header⟩ := List.mem_filterMap.1 hc
    obtain ⟨corner, _, _, end_, spread, inside⟩ := between v hv
    exact ⟨_, spread.header c header, (inside 0 (Nat.zero_le _)).2 (Nat.zero_le _)⟩
  · obtain ⟨v, hv, content⟩ := List.mem_flatMap.1 hc
    obtain ⟨corner, _, _, end_, spread, inside⟩ := between v hv
    obtain ⟨n, place, -, above⟩ := spread.content c content
    exact ⟨_, place, (inside n above).2 (Nat.zero_le n)⟩

/-- Without headers, the corners of a frame enclose its content exactly if all its vectors have a
header cell when the first one has. -/
theorem Regular.encloses_content_iff (h : s.Regular) (acyclic : s.Acyclic) {f : FrameId}
    (hl : s.location? (.frame f) = some l) (arranged : ∀ x, Reach s (.frame f) x → Arranged s x)
    {first last : Location} (range : s.frameRange? false f = some (first, last)) :
    s.Encloses first last (s.frameContent f) ↔
      ((s.frameVectors f).head?.any fun v => (s.headerCell? v).isSome) →
        ∀ v ∈ s.frameVectors f, (s.headerCell? v).isSome := by
  obtain ⟨v₁, head, between⟩ := h.between_corners acyclic hl arranged range
  have low : ∀ v, (s.headerLength v₁ ≤ s.headerLength v ↔
      ((s.headerCell? v₁).isSome → (s.headerCell? v).isSome)) := by
    intro v
    unfold headerLength
    cases (s.headerCell? v₁).isSome <;> cases (s.headerCell? v).isSome <;> simp
  rw [head, Option.any_some]
  constructor
  · intro encloses headed v hv
    obtain ⟨corner, _, _, end_, spread, inside⟩ := between v hv
    obtain ⟨c, hc, place⟩ := spread.begins rfl
    obtain ⟨n, -, behind, above⟩ := spread.content c hc
    obtain ⟨l, found, within⟩ := encloses c (List.mem_flatMap.2 ⟨v, hv, hc⟩)
    obtain rfl := Option.some.inj (place.symm.trans found)
    exact (low v).1 ((inside _ (behind.trans above)).1 within) headed
  · intro all c hc
    obtain ⟨v, hv, content⟩ := List.mem_flatMap.1 hc
    obtain ⟨corner, _, _, end_, spread, inside⟩ := between v hv
    obtain ⟨n, place, behind, above⟩ := spread.content c content
    refine ⟨_, place, (inside n above).2 (le_trans ?_ behind)⟩
    exact (low v).2 fun headed => all headed v hv

end Store

/-! ## Frames that are laid out -/

open Store

/-- Two columns of two cells, the first one with a header. -/
def Store.halfHeaded : Store where
  cells := ⟨#[{ value := .text "1" }, { value := .text "2" }, { value := .text "3" },
    { value := .text "4" }]⟩
  vectors := ⟨#[{ orientation := .vertical, header := some "a", children := [.cell ⟨0⟩, .cell ⟨1⟩] },
    { orientation := .vertical, children := [.cell ⟨2⟩, .cell ⟨3⟩] }]⟩
  frames := ⟨#[{ orientation := .horizontal, children := [.vector ⟨0⟩, .vector ⟨1⟩] }]⟩

/-- The state after the columns are laid out. -/
def Build.halfHeaded : Build :=
  (BuildM.layOut (.frame ⟨0⟩) "S" {} { store := .halfHeaded } : Except SheetError Unit × Build).2

theorem halfHeaded_wellFormed : Store.halfHeaded.WellFormed :=
  wellFormed_of_falling (fun | .frame _ => 2 | .vector _ => 1 | _ => 0) (by decide) (by decide)

theorem halfHeaded_regular : Store.halfHeaded.Regular :=
  regular_of_containers (by decide) (by decide)

theorem halfHeaded_runs :
    Runs (BuildM.layOut (.frame ⟨0⟩) "S" {}) { store := .halfHeaded } () Build.halfHeaded :=
  runs_of_eq_ok (by decide)

end Spreadsheet
