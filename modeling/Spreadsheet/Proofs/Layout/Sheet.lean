import Spreadsheet.Proofs.Build
import Spreadsheet.Proofs.Layout.Area

/-!
# Laying out sheets

What laying out one sheet achieves, and that it lasts: a sheet laid out later changes nothing of an
earlier one, unless there is a cell that is on both.
-/

namespace Spreadsheet

open Store

variable {s t u : Store} {b b' : Build}

/-! ## Styles -/

namespace Store

theorem moves_restyle (s : Store) (c : CellId) {f : CellNode → CellNode}
    (merge : ∀ n, (f n).merge = n.merge) (location : ∀ n, (f n).location = n.location) :
    Moves (fun _ => False) s (s.updateCell c f) where
  toAlike := (relabels_updateCell s c merge location).toAlike
  orientation e := by cases e <;> rfl
  extentOver e below := by
    cases e with
    | cell d => rcases cell_updateCell_cases s c d f with h | h <;> simp [extentOver, h, merge]
    | _ => rfl
  location e := .inl ((relabels_updateCell s c merge location).location e)
  located e h := by rwa [(relabels_updateCell s c merge location).location e]

section

variable {R : Store → Store → Prop} (h : Chains R)

include h

theorem cascadeChildren_relates {cascade : Store → Element → Inherited → Store}
    (each : ∀ s e i, R s (cascade s e i)) (own : Inherited) (o : Orientation) (count index : Nat)
    (s : Store) (children : List Element) :
    R s (cascadeChildren cascade own o count index s children) := by
  induction children generalizing s index with
  | nil => exact h.refl s
  | cons child rest ih => exact h.trans (each s child _) (ih _ _)

/-- What holds between a store and the one in which a cell gets its style holds over the handing down
of styles. -/
theorem cascadeWithin_relates (each : ∀ s c (outer : Inherited), R s (s.updateCell c fun n =>
      if n.inheritsStyle then { n with style := outer.applyTo n.isHeader n.style } else n))
    (fuel : Nat) (s : Store) (e : Element) (outer : Inherited) :
    R s (cascadeWithin fuel s e outer) := by
  induction fuel generalizing s e outer with
  | zero =>
      cases e with
      | cell c => exact each s c outer
      | _ => exact h.refl s
  | succ fuel ih =>
      cases e with
      | cell c => exact each s c outer
      | _ =>
          simp only [cascadeWithin]
          repeat' split
          all_goals first
            | exact h.refl s
            | exact cascadeChildren_relates h ih _ _ _ _ _ _

end

theorem moves_cascade (s : Store) (e : Element) (outer : Inherited) :
    Moves (fun _ => False) s (s.cascade e outer) := by
  refine cascadeWithin_relates ⟨.refl, .trans⟩ (fun s c outer => ?_) _ s e outer
  exact moves_restyle s c (fun n => by split <;> rfl) fun n => by split <;> rfl

end Store

/-! ## One sheet -/

/-- What laying out a tree under the name of a sheet achieves. -/
structure LaidOut (s t : Store) (root : Element) (sheet : String) : Prop where
  grows : Grows [root] s t
  located : ∀ x, x.isSolid = true → Reach t root x → (t.location? x).isSome
  settled : (t.leaves root).Nodup → Settled t t root ⟨sheet, 0, 0⟩

theorem LaidOut.of_grows {root : Element} {sheet : String} (g : Grows [root] s t)
    (h : LaidOut t u root sheet) : LaidOut s u root sheet :=
  ⟨g.trans_same h.grows, h.located, h.settled⟩

theorem laidOut_place (wf : s.WellFormed) {root : Element} (hroot : s.InStore root)
    (free : ∀ x, Reach s root x → GapFree s x) (sheet : String) (outer : Inherited) :
    LaidOut s ((s.place root ⟨sheet, 0, 0⟩).cascade root outer) root sheet := by
  obtain ⟨g, located, settled⟩ := place_spec wf hroot ⟨sheet, 0, 0⟩
  have placed := moves_placeWithin s.depthBound s root ⟨sheet, 0, 0⟩
  have styled := moves_cascade (s.place root ⟨sheet, 0, 0⟩) root outer
  have same : ∀ x, ((s.place root ⟨sheet, 0, 0⟩).cascade root outer).location? x =
      (s.place root ⟨sheet, 0, 0⟩).location? x := fun x => (styled.location x).resolve_right id
  have alike := placed.toAlike.trans styled.toAlike
  refine ⟨g.trans_same (styled.grows g.wf fun _ h => h.elim), fun x solid reach => ?_,
    fun once => ?_⟩
  · rw [same]
    exact located x solid (alike.reach reach)
  · rw [alike.leaves_eq wf.acyclic] at once
    have settled := settled once free
    refine ⟨fun bearing => ?_, fun x reach => ?_⟩
    · rw [alike.leaves_eq wf.acyclic] at bearing
      rw [same]
      exact settled.here bearing
    · exact (settled.below x (alike.reach reach)).later (placed.toAlike.acyclic wf.acyclic) styled
        fun y _ _ => same y

theorem layOut_laidOut (wf : b.store.WellFormed) {root : Element} (hroot : b.store.InStore root)
    {sheet : String} {outer : Inherited} {r : Unit}
    (h : Runs (BuildM.layOut root sheet outer) b r b') :
    LaidOut b.store b'.store root sheet := by
  simp only [BuildM.layOut, runs_bind, BuildM.runs_changeStore, BuildM.runs_liftStore] at h
  obtain ⟨_, _, rfl, _, _, ⟨s₂, headers, rfl⟩, _, _, rfl, notices, _, ⟨s₄, spacing, rfl⟩, _, b₅,
    report, _, _, ⟨s₅, gaps, rfl⟩, _, _, rfl, rfl⟩ := h
  have renamed : Grows [root] b.store (b.store.prepareHeaders root) :=
    (relabels_prepareHeaders b.store root).grows wf
  have inserted := StoreM.insertHeaders_grows renamed.wf (renamed.held _ hroot) headers
  have g₂ := renamed.trans_same inserted
  have sized : Grows [root] s₂ (s₂.applySizes root) := (relabels_applySizes s₂ root).grows g₂.wf
  have g₃ := g₂.trans_same sized
  have g₄ := g₃.trans_same (StoreM.wrapSpacing_grows g₃.wf (g₃.held _ hroot) spacing)
  have stored : b₅.store = s₄ := BuildM.store_of_noteAll report
  rw [stored] at gaps
  obtain ⟨exploded, free⟩ := StoreM.explodeGaps_gapFree g₄.wf (g₄.held _ hroot) gaps
  have g₅ := g₄.trans_same exploded
  exact (laidOut_place g₅.wf (g₅.held _ hroot) free sheet outer).of_grows g₅

theorem store_of_push_gap {k : StackId} {g : Gap} {r : Unit}
    (h : Runs (BuildM.push (.stack k) (.gap g)) b r b') :
    b'.store = b.store.setChildren (.stack k) (b.store.children (.stack k) ++ [.gap g]) := by
  simp only [BuildM.push, BuildM.childFor, runs_bind, runs_get, runs_pure,
    BuildM.runs_changeStore] at h
  obtain ⟨_, _, ⟨_, _, ⟨rfl, rfl⟩, rfl, rfl⟩, rfl⟩ := h
  rfl

theorem push_gap_grows (wf : b.store.WellFormed) {k : StackId} (hk : b.store.InStore (.stack k))
    {g : Gap} {r : Unit} (h : Runs (BuildM.push (.stack k) (.gap g)) b r b') :
    Grows [.stack k] b.store b'.store := by
  rw [store_of_push_gap h]
  refine (Grows.refl wf).setChildren wf hk rfl ⟨_, by simp, .root⟩ ?_ ?_ ?_
  · intro z hz
    rcases List.mem_append.1 hz with below | new
    · exact (Evolves.refl wf).allowed_child wf below
    · rw [List.mem_singleton.1 new]
      exact .of_apart trivial (.of_not_isContainer rfl)
  · intro child below _
    exact ⟨child, List.mem_append_left _ below, .root⟩
  · intro v _ _ o
    have grown := (covers_refl o ((b.store.children (.stack k)).map v.extent)).append
      (covers_nil o ([.gap g].map v.extent))
    rwa [List.append_nil, ← List.map_append] at grown

theorem layOutSheet_laidOut {wb : Workbook} {sheet : Sheet} {name : String}
    (wf : b.store.WellFormed) (hroot : b.store.InStore sheet.element) {r : Unit}
    (h : Runs (wb.layOutSheet sheet name) b r b') :
    LaidOut b.store b'.store sheet.element name := by
  simp only [Workbook.layOutSheet] at h
  split at h
  case isTrue =>
    simp only [runs_bind] at h
    obtain ⟨_, m, pushed, laid⟩ := h
    have g := push_gap_grows wf hroot pushed
    exact (layOut_laidOut g.wf (g.held _ hroot) laid).of_grows g
  case isFalse => exact layOut_laidOut wf hroot h

end Spreadsheet
