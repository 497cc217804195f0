import Spreadsheet.Proofs.Formula.Rendering
import Spreadsheet.Proofs.Store.Reach

/-!
# The places that a formula needs

While a formula is written, the writer looks at the places of the cells it names, and for a block at
those of its first and last cells.  With strict references it fails where one of them has no place.
Between these ends of a block it does not look.
-/

namespace Spreadsheet

namespace Store

variable {s t : Store}

/-- The cells at whose places the range of a vector is read off. -/
def vectorEnds (s : Store) (includeHeaders : Bool) (v : VectorId) : List CellId :=
  ((if includeHeaders then s.headerCell? v else none) <|> (s.vectorCells v).head?).toList ++
    (s.vectorCells v).getLast?.toList

/-- The cells at whose places the block of an element is read off. -/
def blockEnds (s : Store) (includeHeaders : Bool) : Element → List CellId
  | .cell c => [c]
  | .vector v => s.vectorEnds includeHeaders v
  | .frame f => (s.frameVectors f).flatMap (s.vectorEnds includeHeaders)
  | .stack k =>
    let cells := s.blockCells (.stack k) includeHeaders
    cells.head?.toList ++ cells.getLast?.toList
  | _ => []

mutual

/-- The cells at whose places the writer of a formula looks. -/
def anchors (s : Store) : Formula → List CellId
  | .literal _ => []
  | .ref c => [c]
  | .range target includeHeaders => s.blockEnds includeHeaders target
  | .span first last => [first, last]
  | .unary _ operand => s.anchors operand
  | .binary _ lhs rhs => s.anchors lhs ++ s.anchors rhs
  | .call _ args => s.allAnchors args
  | .list items => s.allAnchors items

/-- The cells at whose places the writer of some formulas looks. -/
def allAnchors (s : Store) : List Formula → List CellId
  | [] => []
  | f :: rest => s.anchors f ++ s.allAnchors rest

end

/-- Whether all of some cells have places. -/
def Placed (s : Store) (cells : List CellId) : Prop :=
  ∀ c ∈ cells, (s.cell c).location.isSome

theorem placed_append {cells more : List CellId} :
    s.Placed (cells ++ more) ↔ s.Placed cells ∧ s.Placed more := by
  unfold Placed
  simp only [List.mem_append]
  constructor
  · intro h
    exact ⟨fun c hc => h c (.inl hc), fun c hc => h c (.inr hc)⟩
  · rintro ⟨first, second⟩ c (hc | hc)
    · exact first c hc
    · exact second c hc

theorem placed_toList {o : Option CellId} {c : CellId} {l : Location} (same : o = some c)
    (hl : (s.cell c).location = some l) : s.Placed o.toList := by
  intro d hd
  rw [same, Option.toList_some, List.mem_singleton] at hd
  rw [hd, hl]
  rfl

/-! ## Blocks -/

theorem placed_vectorEnds {includeHeaders : Bool} {v : VectorId} {range : Location × Location}
    (h : s.vectorRange? includeHeaders v = some range) : s.Placed (s.vectorEnds includeHeaders v) := by
  simp only [vectorRange?, Option.bind_eq_bind, Option.bind_eq_some_iff] at h
  obtain ⟨first, begins, l, hl, l', hl', -⟩ := h
  apply placed_append.2
  constructor
  · exact placed_toList begins hl
  · cases last : (s.vectorCells v).getLast? with
    | none => exact fun c hc => by cases hc
    | some c =>
        rw [last, Option.getD_some] at hl'
        exact placed_toList rfl hl'

/-- A block has corners only if its first and last cells have places. -/
theorem placed_blockEnds {target : Element} {includeHeaders : Bool} {range : Location × Location}
    (h : s.blockRange? target includeHeaders = some range) :
    s.Placed (s.blockEnds includeHeaders target) := by
  cases target with
  | vector v => exact placed_vectorEnds h
  | frame f =>
      simp only [blockRange?, frameRange?, Option.bind_eq_bind, Option.bind_eq_some_iff] at h
      obtain ⟨ranges, mapped, -⟩ := h
      intro c hc
      obtain ⟨v, hv, hc⟩ := List.mem_flatMap.1 hc
      obtain ⟨range, -, hr⟩ := forall₂_left (forall₂_of_mapM mapped) hv
      exact placed_vectorEnds hr c hc
  | stack k =>
      simp only [blockRange?, Option.bind_eq_bind, Option.bind_eq_some_iff] at h
      obtain ⟨first, begins, l, hl, last, ends, l', hl', -⟩ := h
      exact placed_append.2 ⟨placed_toList begins hl, placed_toList ends hl'⟩
  | _ => cases h

end Store

/-! ## Formulas -/

namespace BuildM

open Store

variable {b b' : Build} {sheet text : String}

theorem not_runs_missingText (strict : b.config.strictReferences = true) {what : String} :
    ¬Runs (missingText what) b text b' := by
  intro h
  obtain ⟨_, _, got, h⟩ := runs_bind.1 h
  obtain ⟨rfl, rfl⟩ := runs_get.1 got
  rw [if_pos strict] at h
  obtain ⟨_, _, failed, -⟩ := runs_bind.1 h
  exact not_runs_throw failed

theorem not_runs_unplacedText (strict : b.config.strictReferences = true)
    {cellText : CellId → BuildM String} {cells : List CellId} {what : String} :
    ¬Runs (unplacedText cellText cells what) b text b' := by
  intro h
  obtain ⟨_, _, got, h⟩ := runs_bind.1 h
  obtain ⟨rfl, rfl⟩ := runs_get.1 got
  rw [if_pos strict] at h
  obtain ⟨_, _, failed, -⟩ := runs_bind.1 h
  exact not_runs_throw failed

theorem placed_of_placedText (strict : b.config.strictReferences = true)
    {inlined : Formula → BuildM String} {c : CellId} (h : Runs (placedText sheet inlined c) b text b') :
    (b.store.cell c).location.isSome := by
  obtain ⟨_, _, got, h⟩ := runs_bind.1 h
  obtain ⟨rfl, rfl⟩ := runs_get.1 got
  dsimp only at h
  split at h
  case h_1 l hl =>
    rw [hl]
    rfl
  case h_2 =>
    split at h
    case isTrue => exact absurd h (not_runs_missingText strict)
    case isFalse =>
      obtain ⟨_, _, got, h⟩ := runs_bind.1 h
      obtain ⟨rfl, rfl⟩ := runs_get.1 got
      rw [if_pos strict] at h
      obtain ⟨_, _, failed, -⟩ := runs_bind.1 h
      exact absurd failed not_runs_throw

theorem placed_of_cellText (strict : b.config.strictReferences = true) {fuel depth : Nat}
    {c : CellId} (h : Runs (cellText sheet fuel depth c) b text b') :
    (b.store.cell c).location.isSome := by
  cases fuel with
  | zero => exact placed_of_placedText strict h
  | succ fuel => exact placed_of_placedText strict h

theorem placed_of_rangeText (strict : b.config.strictReferences = true)
    {cellText : CellId → BuildM String} {target : Element} {includeHeaders : Bool}
    (h : Runs (rangeText cellText sheet target includeHeaders) b text b') :
    b.store.Placed (b.store.blockEnds includeHeaders target) := by
  obtain ⟨_, _, got, h⟩ := runs_bind.1 h
  obtain ⟨rfl, rfl⟩ := runs_get.1 got
  dsimp only at h
  split at h
  case h_1 => exact absurd h not_runs_throw
  case h_2 => exact absurd h not_runs_throw
  case h_3 => exact absurd h not_runs_throw
  case h_4 =>
    split at h
    case h_1 first last range => exact placed_blockEnds range
    case h_2 => exact absurd h (not_runs_unplacedText strict)

section

variable {cellText : Nat → CellId → BuildM String} {kept : Store × Config}

mutual

/-- With strict references a formula is written only if all cells have places at whose places the
writer looks. -/
theorem renderAt_placed (strict : kept.2.strictReferences = true)
    (keeps : ∀ depth c, Keeps settled (cellText depth c))
    (cells : ∀ depth c b text b', settled b = kept → Runs (cellText depth c) b text b' →
      (kept.1.cell c).location.isSome) (sheet : String) (depth : Nat) :
    ∀ (f : Formula) {b b' : Build} {text : String}, settled b = kept →
      Runs (renderAt cellText sheet depth f) b text b' → kept.1.Placed (kept.1.anchors f)
  | .literal value, b, b', text, same, h => by
      rw [anchors]
      exact fun c hc => by cases hc
  | .ref c, b, b', text, same, h => by
      rw [renderAt] at h
      have here := cells depth c b text b' same (runs_of_checked h)
      rw [anchors]
      exact fun d hd => List.mem_singleton.1 hd ▸ here
  | .range target includeHeaders, b, b', text, same, h => by
      rw [anchors]
      cases target with
      | cell c =>
          rw [renderAt] at h
          have here := cells depth c b text b' same (runs_of_checked h)
          exact fun d hd => List.mem_singleton.1 hd ▸ here
      | _ =>
          obtain rfl := same
          rw [renderAt] at h
          · exact placed_of_rangeText strict (runs_of_checked h)
          · simp
  | .span first last, b, b', text, same, h => by
      obtain rfl := same
      rw [renderAt] at h
      obtain ⟨_, _, got, h⟩ := runs_bind.1 (runs_of_checked h)
      obtain ⟨rfl, rfl⟩ := runs_get.1 got
      dsimp only at h
      split at h
      case h_1 l l' hl hl' =>
        rw [anchors]
        intro c hc
        rcases List.mem_pair.1 hc with rfl | rfl
        · exact Option.isSome_iff_exists.2 ⟨l, hl⟩
        · exact Option.isSome_iff_exists.2 ⟨l', hl'⟩
      case h_2 => exact absurd h (not_runs_unplacedText strict)
  | .unary op operand, b, b', text, same, h => by
      rw [renderAt] at h
      obtain ⟨x, m, first, -⟩ := runs_bind.1 (runs_of_checked h)
      rw [anchors]
      exact renderAt_placed strict keeps cells sheet depth operand same first
  | .binary op lhs rhs, b, b', text, same, h => by
      rw [renderAt] at h
      obtain ⟨x, m, first, h⟩ := runs_bind.1 (runs_of_checked h)
      obtain ⟨y, m', second, -⟩ := runs_bind.1 h
      have same' := ((renderAt_keeps keeps sheet depth lhs).of_runs first).trans same
      rw [anchors]
      apply placed_append.2
      constructor
      · exact renderAt_placed strict keeps cells sheet depth lhs same first
      · exact renderAt_placed strict keeps cells sheet depth rhs same' second
  | .call name args, b, b', text, same, h => by
      rw [renderAt] at h
      obtain ⟨texts, m, all, -⟩ := runs_bind.1 (runs_of_checked h)
      rw [anchors]
      exact renderAll_placed strict keeps cells sheet depth args same all
  | .list items, b, b', text, same, h => by
      rw [renderAt] at h
      obtain ⟨texts, m, all, -⟩ := runs_bind.1 (runs_of_checked h)
      rw [anchors]
      exact renderAll_placed strict keeps cells sheet depth items same all

theorem renderAll_placed (strict : kept.2.strictReferences = true)
    (keeps : ∀ depth c, Keeps settled (cellText depth c))
    (cells : ∀ depth c b text b', settled b = kept → Runs (cellText depth c) b text b' →
      (kept.1.cell c).location.isSome) (sheet : String) (depth : Nat) :
    ∀ (l : List Formula) {b b' : Build} {texts : List String}, settled b = kept →
      Runs (renderAll cellText sheet depth l) b texts b' → kept.1.Placed (kept.1.allAnchors l)
  | [], b, b', texts, same, h => by
      rw [allAnchors]
      exact fun c hc => by cases hc
  | f :: rest, b, b', texts, same, h => by
      rw [renderAll, runs_bind] at h
      obtain ⟨x, m, first, h⟩ := h
      obtain ⟨xs, m', others, -⟩ := runs_bind.1 h
      rw [allAnchors]
      exact placed_append.2
        ⟨renderAt_placed strict keeps cells sheet depth f same first,
          renderAll_placed strict keeps cells sheet depth rest
            (((renderAt_keeps keeps sheet depth f).of_runs first).trans same) others⟩

end

end

theorem placed_of_formulaText (strict : b.config.strictReferences = true) {f : Formula}
    (h : Runs (formulaText sheet f) b text b') : b.store.Placed (b.store.anchors f) := by
  obtain ⟨body, m, rendered, -⟩ := runs_bind.1 h
  have cells : ∀ depth c m text m', settled m = settled b →
      Runs (cellText sheet (inlineLimit + 2) depth c) m text m' →
        (b.store.cell c).location.isSome := by
    intro depth c m text m' same run
    obtain ⟨store, config⟩ := Prod.mk.inj same
    rw [← store]
    exact placed_of_cellText (config ▸ strict) run
  exact renderAt_placed (show (settled b).2.strictReferences = true from strict)
    (cellText_keeps sheet _) cells sheet 0 f rfl rendered

end BuildM

end Spreadsheet
