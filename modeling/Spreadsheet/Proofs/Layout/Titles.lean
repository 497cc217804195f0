import Spreadsheet.Proofs.Layout.ColumnNames
import Spreadsheet.Proofs.Layout.Gentle
import Spreadsheet.Proofs.Layout.Shapes

/-!
# What header cells say

A header cell is made with the header of its vector as its text.  From then on a layout changes
neither: space is made behind the header cell, and no other header is inserted.  So after a layout the
first cell of a vector says what the header of the vector is.
-/

namespace Spreadsheet

namespace Store

variable {s t u : Store} {touched : VectorId → Prop} {v : VectorId}

/-- What a header cell says, if it has no formula. -/
def headerText? (s : Store) (c : CellId) : Option CellValue :=
  if (s.cell c).isHeader && (s.cell c).formula.isNone then some (s.cell c).value else none

/-- Whether the first cell of a vector says what its header is, if that is inserted. -/
def Titled (s : Store) (v : VectorId) : Prop :=
  (s.vector v).headerInserted = true → ∃ c text, (s.children (.vector v)).head? = some (.cell c) ∧
    (s.vector v).header = some text ∧ s.headerText? c = some (.text text)

/-- Whether header cells go on saying what they say, and vectors keep their headers and the cells in
front, but for some vectors. -/
structure KeepsTitles (touched : VectorId → Prop) (s t : Store) : Prop where
  held : ∀ c, s.InStore (.cell c) → t.InStore (.cell c)
  text : ∀ c, s.InStore (.cell c) → t.headerText? c = s.headerText? c
  header : ∀ v, ¬touched v → (t.vector v).header = (s.vector v).header ∧
    (t.vector v).headerInserted = (s.vector v).headerInserted
  front : ∀ v, ¬touched v → ∀ c, (s.children (.vector v)).head? = some (.cell c) →
    (t.children (.vector v)).head? = some (.cell c)

theorem KeepsTitles.refl (s : Store) : KeepsTitles touched s s :=
  ⟨fun _ h => h, fun _ _ => rfl, fun _ _ => ⟨rfl, rfl⟩, fun _ _ _ h => h⟩

theorem KeepsTitles.trans (first : KeepsTitles touched s t) (second : KeepsTitles touched t u) :
    KeepsTitles touched s u where
  held c hc := second.held c (first.held c hc)
  text c hc := (second.text c (first.held c hc)).trans (first.text c hc)
  header v hv :=
    ⟨(second.header v hv).1.trans (first.header v hv).1,
      (second.header v hv).2.trans (first.header v hv).2⟩
  front v hv c hc := second.front v hv c (first.front v hv c hc)

theorem KeepsTitles.mono {more : VectorId → Prop} (h : KeepsTitles touched s t)
    (imp : ∀ v, touched v → more v) : KeepsTitles more s t where
  held := h.held
  text := h.text
  header v hv := h.header v fun there => hv (imp v there)
  front v hv := h.front v fun there => hv (imp v there)

theorem KeepsTitles.titled (h : KeepsTitles touched s t) (wf : s.WellFormed) (apart : ¬touched v)
    (titled : s.Titled v) : t.Titled v := by
  intro inserted
  rw [(h.header v apart).2] at inserted
  obtain ⟨c, text, first, header, reads⟩ := titled inserted
  have inside := wf.closed _ _ (List.mem_of_head? first)
  exact ⟨c, text, h.front v apart c first, (h.header v apart).1.trans header,
    (h.text c inside).trans reads⟩

/-! ## Steps that touch no vector -/

theorem keepsTitles_of_alike (alike : Alike s t) (same : t.marks = s.marks)
    (text : t.headerText? = s.headerText?) : KeepsTitles touched s t := by
  have headers := congrFun (Prod.mk.inj same).2
  refine ⟨fun c => (alike.inStore (.cell c)).2, fun c _ => congrFun text c,
    fun v _ => Prod.mk.inj (headers v), fun v _ c first => ?_⟩
  rw [alike.children]
  exact first

theorem headerText?_updateCell (s : Store) (c : CellId) {f : CellNode → CellNode}
    (same : ∀ n, ((f n).isHeader, (f n).formula, (f n).value) = (n.isHeader, n.formula, n.value)) :
    (s.updateCell c f).headerText? = s.headerText? := by
  funext d
  rcases cell_updateCell_cases s c d f with h | h
  · simp only [headerText?, h]
  · have parts := same (s.cell d)
    simp only [Prod.mk.injEq] at parts
    simp only [headerText?, h, parts]

theorem headerText?_updateAttributes (s : Store) (e : Element) (f : Attributes → Attributes) :
    (s.updateAttributes e f).headerText? = s.headerText? := by
  cases e <;> rfl

theorem headerText?_setChildren (s : Store) (e : Element) (l : List Element) :
    (s.setChildren e l).headerText? = s.headerText? := by
  cases e <;> rfl

theorem keepsTitles_addCell (s : Store) (n : CellNode) : KeepsTitles touched s (s.addCell n).2 := by
  refine ⟨fun c hc => ?_, fun c hc => ?_, fun _ _ => ⟨rfl, rfl⟩, fun _ _ _ h => h⟩
  · exact hc.trans (by simp [addCell])
  · have old : (s.addCell n).2.cell c = s.cell c := by
      rw [cell_addCell_eq, if_neg hc.ne]
    rw [headerText?, old, headerText?]

theorem keepsTitles_updateVector (s : Store) (v : VectorId) (f : VectorNode → VectorNode) :
    KeepsTitles (· = v) s (s.updateVector v f) := by
  have same : ∀ w, ¬w = v → (s.updateVector v f).vector w = s.vector w :=
    fun w apart => vector_updateVector_of_ne s f (Ne.symm apart)
  refine ⟨fun _ h => h, fun _ _ => rfl, fun w apart => ?_, fun w apart c first => ?_⟩
  · rw [same w apart]
    exact ⟨rfl, rfl⟩
  · rw [children, same w apart]
    exact first

/-- Space is made behind the header cells. -/
theorem gentle_keepsTitles : Gentle (KeepsTitles touched) where
  refl := .refl
  trans := .trans
  cell s n _ _ _ _ := keepsTitles_addCell s n
  vector s n blank uninserted := by
    have cases : ∀ w, (s.addVector n).2.vector w = s.vector w ∨
        (s.addVector n).2.vector w = n ∧ ¬s.InStore (.vector w) := by
      intro w
      rw [vector_addVector_eq]
      split
      case isTrue new => exact .inr ⟨rfl, new.not_lt⟩
      case isFalse => exact .inl rfl
    refine ⟨fun _ h => h, fun _ _ => rfl, fun w _ => ?_, fun w _ c first => ?_⟩
    · rcases cases w with same | ⟨same, new⟩
      · rw [same]
        exact ⟨rfl, rfl⟩
      · rw [same, blank, uninserted, vector, get_eq_default (Nat.le_of_not_lt new)]
        exact ⟨rfl, rfl⟩
    · rcases cases w with same | ⟨-, new⟩
      · rw [children, same]
        exact first
      · rw [children_of_not_inStore new] at first
        cases first
  frame _ _ _ _ := ⟨fun _ h => h, fun _ _ => rfl, fun _ _ => ⟨rfl, rfl⟩, fun _ _ _ h => h⟩
  stack _ _ := ⟨fun _ h => h, fun _ _ => rfl, fun _ _ => ⟨rfl, rfl⟩, fun _ _ _ h => h⟩
  attributes s e f := keepsTitles_of_alike (alike_updateAttributes s e f)
    (marks_updateAttributes s e f) (headerText?_updateAttributes s e f)
  children := by
    intro s t e l before front _
    have regroups := regroups_setChildren t e l
    have headers := congrFun (Prod.mk.inj (marks_setChildren t e l)).2
    refine ⟨fun c hc => (regroups.inStore (.cell c)).2 (before.held c hc), fun c hc => ?_,
      fun v hv => ?_, fun v hv c first => ?_⟩
    · rw [headerText?_setChildren, before.text c hc]
    · obtain ⟨header, inserted⟩ := Prod.mk.inj (headers v)
      exact ⟨header.trans (before.header v hv).1, inserted.trans (before.header v hv).2⟩
    · rcases children_setChildren_cases t e (.vector v) l with same | ⟨rfl, new⟩
      · rw [same]
        exact before.front v hv c first
      · rw [new]
        exact front c first

end Store

namespace StoreM

open Store

variable {s t : Store}

/-! ## Header cells -/

/-- A header that is inserted is what the new cell says. -/
theorem insertHeader_titles {v : VectorId} (wf : s.WellFormed) {r : Unit}
    (h : Leads (insertHeader v) s r t) :
    KeepsTitles (· = v) s t ∧ ∀ w, s.Titled w → t.Titled w := by
  suffices own : KeepsTitles (· = v) s t ∧ (s.Titled v → t.Titled v) by
    refine ⟨own.1, fun w titled => ?_⟩
    by_cases here : w = v
    · rw [here] at titled ⊢
      exact own.2 titled
    · exact own.1.titled wf here titled
  simp only [insertHeader, leads_bind, leads_get] at h
  obtain ⟨_, _, ⟨rfl, rfl⟩, h⟩ := h
  split at h
  case h_1 text blank header =>
    simp only [newCell, leads_bind, leads_modifyGet, leads_modify] at h
    obtain ⟨c, u, ⟨rfl, rfl⟩, rfl⟩ := h
    generalize hn : ({ value := .text text, style := _, isHeader := true } : CellNode) = n
    refine ⟨(keepsTitles_addCell s n).trans (keepsTitles_updateVector _ v _), fun _ inserted => ?_⟩
    have reads : (s.addCell n).2.headerText? (s.addCell n).1 = some (.text text) := by
      rw [headerText?, cell_addCell, ← hn]
      rfl
    rcases vector_updateVector_cases (s.addCell n).2 v v
      (fun m => { m with children := .cell (s.addCell n).1 :: m.children, headerInserted := true })
      with same | same
    · rw [same, show ((s.addCell n).2.vector v).headerInserted = false from blank] at inserted
      cases inserted
    · refine ⟨_, text, ?_, ?_, reads⟩
      · rw [children, same]
        rfl
      · rw [same]
        exact header
  case h_2 =>
    obtain ⟨-, rfl⟩ := leads_pure.1 h
    exact ⟨.refl s, id⟩

theorem insertHeaders_titles (wf : s.WellFormed) {root : Element} (hroot : s.InStore root)
    {r : Unit} (h : Leads (insertHeaders root) s r t) :
    KeepsTitles (fun v => Reach s root (.vector v)) s t ∧ ∀ v, s.Titled v → t.Titled v := by
  simp only [insertHeaders, leads_bind, leads_get] at h
  obtain ⟨_, _, ⟨rfl, rfl⟩, _, m, h, hm⟩ := h
  obtain ⟨-, rfl⟩ := leads_pure.1 hm
  have run := h.loop (fun t => Grows [root] s t ∧
    KeepsTitles (fun v => Reach s root (.vector v)) s t ∧ ∀ v, s.Titled v → t.Titled v)
    (fun _ _ => True) ⟨.refl wf, .refl s, fun _ h => h⟩ ?_
  · exact run.1.2
  · rintro e he a r b ⟨g, keeps, titles⟩ step
    cases e with
    | vector v =>
        simp only [leads_bind, leads_pure] at step
        obtain ⟨_, b, first, rfl, rfl⟩ := step
        have reach := wf.acyclic.mem_subtree.1 he
        have inside := wf.inStore_of_reach hroot reach
        have below := insertHeader_grows g.wf (g.held _ inside) first
        have reach' := g.reach root _ rfl reach
        obtain ⟨keeps', titles'⟩ := insertHeader_titles g.wf first
        refine ⟨rfl, ⟨?_, ?_, fun w h => titles' w (titles w h)⟩, trivial, fun _ h => h⟩
        · exact g.trans_same (below.under fun r hr => ⟨root, by simp, by
            rw [List.mem_singleton.1 hr]
            exact below.reach root _ rfl reach'⟩)
        · apply keeps.trans (keeps'.mono _)
          rintro w rfl
          exact reach
    | _ =>
        obtain ⟨rfl, rfl⟩ := leads_pure.1 step
        exact ⟨rfl, ⟨g, keeps, titles⟩, trivial, fun _ h => h⟩

end StoreM

/-! ## Sizes, places and styles -/

namespace Store

variable {s t : Store} {touched : VectorId → Prop}

theorem headerText?_setLocation (s : Store) (e : Element) (l : Location) :
    (s.setLocation e l).headerText? = s.headerText? := by
  cases e with
  | cell c => exact headerText?_updateCell s c fun _ => rfl
  | _ => rfl

theorem keepsTitles_applySizes (s : Store) (root : Element) :
    KeepsTitles touched s (s.applySizes root) :=
  keepsTitles_of_alike (relabels_applySizes s root).toAlike
    (applySizes_relates chains_part marks_setVectorSize s root)
    (applySizes_relates chains_part (fun _ _ _ _ => rfl) s root)

theorem keepsTitles_place (s : Store) (e : Element) (l : Location) :
    KeepsTitles touched s (s.place e l) :=
  keepsTitles_of_alike (moves_placeWithin _ s e l).toAlike
    (placeWithin_keeps marks_setLocation _ s e l)
    (placeWithin_keeps headerText?_setLocation _ s e l)

theorem keepsTitles_cascade (s : Store) (e : Element) (outer : Inherited) :
    KeepsTitles touched s (s.cascade e outer) := by
  refine keepsTitles_of_alike (moves_cascade s e outer).toAlike
    (cascadeWithin_relates chains_part (fun s c _ => marks_updateCell s c _) _ s e outer)
    (cascadeWithin_relates chains_part
      (fun s c _ => headerText?_updateCell s c fun n => ?_) _ s e outer)
  split <;> rfl

/-- Headers that are renamed belong to vectors below the root. -/
theorem keepsTitles_prepareHeaders (acyclic : s.Acyclic) (root : Element) :
    KeepsTitles (fun v => Reach s root (.vector v)) s (s.prepareHeaders root) := by
  have relabels := relabels_prepareHeaders s root
  have cells : (s.prepareHeaders root).cells = s.cells :=
    prepareHeaders_relates chains_part (fun _ _ _ => rfl) s root
  refine ⟨fun c => (relabels.inStore (.cell c)).2, fun c _ => ?_, fun v outside => ?_,
    fun v _ c first => ?_⟩
  · rw [headerText?, cell, cells]
    rfl
  · rw [vector_prepareHeaders_of_not_reach acyclic outside]
    exact ⟨rfl, rfl⟩
  · rw [relabels.children]
    exact first

end Store

/-! ## A whole layout -/

open Store

theorem StoreM.insertHeaders_headers {s t : Store} {root : Element} {r : Unit}
    (h : Leads (insertHeaders root) s r t) (v : VectorId) :
    (t.vector v).header = (s.vector v).header := by
  have same : Retains (fun (s : Store) v => (s.vector v).header) (insertHeaders root) := by
    refine insertHeaders_relates chains_part (fun _ _ _ _ _ => rfl) (fun s v c => ?_) root
    funext w
    rcases vector_updateVector_cases s v w (fun n =>
      { n with children := .cell c :: n.children, headerInserted := true }) with same | same
    · rw [same]
    · rw [same]
  exact congrFun (same.of_leads h) v

/-- After the headers are prepared a layout changes none of them, and what the first cell of a vector
says stays so; the vectors that it changes are below the root. -/
theorem BuildM.layOut_titles {b b' : Build} (wf : b.store.WellFormed) {root : Element}
    (hroot : b.store.InStore root) {sheet : String} {outer : Inherited} {r : Unit}
    (h : Runs (layOut root sheet outer) b r b') :
    KeepsTitles (fun v => Reach b'.store root (.vector v)) b.store b'.store ∧
      (∀ v, (b'.store.vector v).header = ((b.store.prepareHeaders root).vector v).header) ∧
      ∀ v, (b.store.prepareHeaders root).Titled v → b'.store.Titled v := by
  have grows := (layOut_laidOut wf hroot h).grows
  simp only [layOut, runs_bind, runs_changeStore, runs_liftStore] at h
  obtain ⟨_, _, rfl, _, _, ⟨s₂, headers, rfl⟩, _, _, rfl, notices, _, ⟨s₄, spacing, rfl⟩, _, b₅,
    report, _, _, ⟨s₅, gaps, rfl⟩, _, _, rfl, rfl⟩ := h
  have stored : b₅.store = s₄ := store_of_noteAll report
  rw [stored] at gaps
  have relabels := relabels_prepareHeaders b.store root
  have wf₁ := relabels.toAlike.wellFormed wf
  have hroot₁ := (relabels.inStore root).2 hroot
  have wf₂ := (StoreM.insertHeaders_grows wf₁ hroot₁ headers).wf
  obtain ⟨inserted, titles⟩ := StoreM.insertHeaders_titles wf₁ hroot₁ headers
  have gentle : Gentle (KeepsTitles fun _ => False) := gentle_keepsTitles
  have rest : KeepsTitles (fun _ => False) s₂
      ((s₅.place root ⟨sheet, 0, 0⟩).cascade root outer) := by
    apply (keepsTitles_applySizes s₂ root).trans
    apply ((StoreM.wrapSpacing_relates gentle root).of_leads spacing).trans
    apply ((StoreM.explodeGaps_relates gentle root).of_leads gaps).trans
    exact (keepsTitles_place s₅ root _).trans (keepsTitles_cascade _ root outer)
  refine ⟨?_, fun v => ?_, fun v titled => rest.titled wf₂ id (titles v titled)⟩
  · have later : ∀ v, Reach b.store root (.vector v) →
        Reach ((s₅.place root ⟨sheet, 0, 0⟩).cascade root outer) root (.vector v) :=
      fun v reach => grows.reach root _ rfl reach
    apply ((keepsTitles_prepareHeaders wf.acyclic root).mono later).trans
    apply (inserted.mono fun v reach => later v (relabels.reach reach)).trans
    exact rest.mono fun _ h => h.elim
  · rw [(rest.header v id).1, StoreM.insertHeaders_headers headers]

end Spreadsheet
