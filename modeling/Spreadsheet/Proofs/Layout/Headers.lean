import Spreadsheet.Layout
import Spreadsheet.Proofs.Monad
import Spreadsheet.Proofs.Store.Updates

/-!
# Headers and sizes keep the trees

Renaming headers and handing out sizes changes no tree.  A header cell takes the place that was kept
for it, in front of all other children of its vector.
-/

namespace Spreadsheet

namespace Store

variable {s t : Store}

/-! ## Renaming -/

section

variable {R : Store → Store → Prop} (h : Chains R)
  (each : ∀ s v header, R s (s.setHeader v header))

include h each

theorem applySchema_relates (s : Store) (f : FrameId) : R s (s.applySchema f) := by
  refine h.foldl (fun t v => ?_) _ s
  split
  case h_1 name _ => exact each t v name
  case h_2 => exact h.refl t

theorem nameVectors_relates (s : Store) (taken : List String) (unnamed : Nat)
    (vectors : List VectorId) : R s (s.nameVectors taken unnamed vectors) := by
  induction vectors generalizing s taken unnamed with
  | nil => exact h.refl s
  | cons v rest ih => exact h.trans (each s v _) (ih _ _ _)

theorem prepareFrame_relates (s : Store) (f : FrameId) : R s (s.prepareFrame f) := by
  unfold prepareFrame
  dsimp only
  split
  case isTrue =>
    exact h.trans (applySchema_relates h each s f) (nameVectors_relates h each _ _ _ _)
  case isFalse => exact applySchema_relates h each s f

/-- What holds between a store and the one in which a header is set holds over the renaming of all
headers. -/
theorem prepareHeaders_relates (s : Store) (root : Element) : R s (s.prepareHeaders root) := by
  refine h.foldl (fun t e => ?_) _ s
  split
  case h_1 f => exact prepareFrame_relates h each t f
  case h_2 => exact h.refl t

end

theorem chains_relabels : Chains Relabels :=
  ⟨.refl, .trans⟩

theorem relabels_setHeader (s : Store) (v : VectorId) (header : String) :
    Relabels s (s.setHeader v header) :=
  relabels_updateVector s v (fun _ => rfl) (fun _ => rfl) (fun _ => rfl) (fun _ _ => rfl)
    (fun _ => rfl)

theorem relabels_prepareFrame (s : Store) (f : FrameId) : Relabels s (s.prepareFrame f) :=
  prepareFrame_relates chains_relabels relabels_setHeader s f

theorem relabels_prepareHeaders (s : Store) (root : Element) :
    Relabels s (s.prepareHeaders root) :=
  prepareHeaders_relates chains_relabels relabels_setHeader s root

/-! ## Sizes -/

theorem relabels_setVectorSize (s : Store) (o : Orientation) (v : VectorId) (size : Float) :
    Relabels s (s.setVectorSize o v size) :=
  relabels_updateVector s v (fun _ => rfl) (fun _ => rfl) (fun _ => rfl) (fun _ h => h)
    (fun _ => rfl)

/-- What holds between a store and the one in which a vector gets its size holds over the handing out
of all sizes. -/
theorem applySizes_relates {R : Store → Store → Prop} (h : Chains R)
    (each : ∀ s o v size, R s (s.setVectorSize o v size)) (s : Store) (root : Element) :
    R s (s.applySizes root) := by
  refine h.foldl (fun t e => ?_) _ s
  split
  case h_1 f =>
    refine h.foldl (fun u pair => ?_) _ t
    split
    case h_1 v size => exact each u _ v size
    case h_2 => exact h.refl u
  case h_2 => exact h.refl t

theorem relabels_applySizes (s : Store) (root : Element) : Relabels s (s.applySizes root) :=
  applySizes_relates chains_relabels relabels_setVectorSize s root

end Store

namespace StoreM

open Store

variable {s t : Store}

/-! ## Header cells -/

/-- The change that makes a cell the header of a vector. -/
private def withHeader (c : CellId) (n : VectorNode) : VectorNode :=
  { n with children := .cell c :: n.children, headerInserted := true }

private theorem grows_withHeader (wf : s.WellFormed) {v : VectorId} (hv : s.InStore (.vector v))
    {n : CellNode} (merge : n.merge = ⟨1, 1⟩) :
    Grows [.vector v] s
      ((s.addCell n).2.updateVector v (withHeader (s.addCell n).1)) := by
  have adds := adds_addCell s (n := n) (by simp [merge])
  generalize hc : (s.addCell n).1 = c
  have size : (s.addCell n).2.cell c = n := by rw [← hc, cell_addCell]
  have inside : (s.addCell n).2.InStore (.cell c) := hc ▸ inStore_addCell s n
  generalize (s.addCell n).2 = u at *
  have g : Grows [.vector v] s u := adds.grows wf
  have self : (u.updateVector v (withHeader c)).vector v = withHeader c (u.vector v) :=
    Table.get_update_self u.vectors _ (g.held _ hv)
  have old : u.children (.vector v) = s.children (.vector v) := adds.children _ hv
  have new : (u.updateVector v (withHeader c)).children (.vector v) =
      .cell c :: s.children (.vector v) := by
    rw [← old, children, self]
    rfl
  refine g.regroup wf hv rfl (regroups_updateVector u v _) ⟨_, by simp, .root⟩ ?_ ?_ ?_ ?_ ?_
  · rw [new]
    intro z hz
    rcases List.mem_cons.1 hz with rfl | hz
    · exact .of_apart inside (.of_not_isContainer rfl)
    · exact g.allowed_child wf hz
  · rw [new, old]
    intro child below _
    exact ⟨child, List.mem_cons_of_mem _ below, .root⟩
  · intro x
    cases x with
    | vector w =>
        rcases vector_updateVector_cases u v w (withHeader c) with h | h <;>
          simp [location?, attributes?, h, withHeader]
    | _ => rfl
  · intro x ne below
    cases x with
    | vector w =>
        have apart : v ≠ w := fun same => ne (by rw [same])
        simp only [extentOver, pendingHeader, vector_updateVector_of_ne u _ apart, le_refl]
    | _ => exact le_refl _
  · intro acyclic _
    have header : (u.updateVector v (withHeader c)).extent (.cell c) = ⟨1, 1⟩ := by
      rw [acyclic.extent_eq]
      exact (congrArg CellNode.merge size).trans merge
    rw [new, old, List.map_cons, header]
    -- The place kept for the header is exactly the cell in front.
    have before : ∀ below, u.extentOver below (.vector v) ≤
        (u.updateVector v (withHeader c)).extentOver (⟨1, 1⟩ :: below) (.vector v) := by
      intro below
      simp only [extentOver, pendingHeader, self, withHeader]
      refine Orientation.extent_le _ ?_ ?_
      · have kept := Bool.toNat_le ((u.vector v).header.isSome && !(u.vector v).headerInserted)
        have one : (u.vector v).orientation.along ⟨1, 1⟩ = 1 := by
          cases (u.vector v).orientation <;> rfl
        simp only [stacked, Orientation.along_extent, List.map_cons, Number.total_cons, one]
        simp only [Bool.not_true, Bool.and_false, Bool.toNat_false]
        omega
      · have inner := foldl_max_le_iff.1 (le_refl
          (((⟨1, 1⟩ :: below).map (u.vector v).orientation.across).foldl max 0))
        have outer := foldl_max_le_iff.2 ⟨Nat.zero_le _, fun m hm =>
          inner.2 m (List.mem_cons_of_mem _ hm)⟩
        simp only [stacked, Orientation.across_extent]
        exact max_le_max outer (le_refl 1)
    exact before _

theorem insertHeader_grows (wf : s.WellFormed) {v : VectorId} (hv : s.InStore (.vector v))
    {r : Unit} (h : Leads (insertHeader v) s r t) : Grows [.vector v] s t := by
  simp only [insertHeader, leads_bind, leads_get] at h
  obtain ⟨_, _, ⟨rfl, rfl⟩, h⟩ := h
  split at h
  case h_1 text _ _ =>
    simp only [newCell, leads_bind, leads_modifyGet, leads_modify] at h
    obtain ⟨c, u, ⟨rfl, rfl⟩, rfl⟩ := h
    exact grows_withHeader wf hv rfl
  case h_2 =>
    obtain ⟨-, rfl⟩ := leads_pure.1 h
    exact .refl wf

theorem insertHeaders_grows (wf : s.WellFormed) {root : Element} (hroot : s.InStore root)
    {r : Unit} (h : Leads (insertHeaders root) s r t) : Grows [root] s t := by
  simp only [insertHeaders, leads_bind, leads_get] at h
  obtain ⟨_, _, ⟨rfl, rfl⟩, _, m, h, hm⟩ := h
  obtain ⟨-, rfl⟩ := leads_pure.1 hm
  refine (h.loop (Grows [root] s) (fun _ _ => True) (.refl wf) ?_).1
  intro e he m r t g step
  cases e with
  | vector v =>
      simp only [leads_bind, leads_pure] at step
      obtain ⟨_, m', first, rfl, rfl⟩ := step
      have reach := wf.acyclic.mem_subtree.1 he
      have inside := wf.inStore_of_reach hroot reach
      have below := insertHeader_grows g.wf (g.held _ inside) first
      have reach' := below.reach root _ rfl (g.reach root _ rfl reach)
      refine ⟨rfl, ?_, trivial, fun _ h => h⟩
      exact g.trans_same (below.under fun r hr =>
        ⟨root, by simp, by rw [List.mem_singleton.1 hr]; exact reach'⟩)
  | _ =>
      obtain ⟨rfl, rfl⟩ := leads_pure.1 step
      exact ⟨rfl, g, trivial, fun _ h => h⟩

end StoreM

end Spreadsheet
