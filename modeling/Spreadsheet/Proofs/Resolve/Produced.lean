import Spreadsheet.Proofs.Build
import Spreadsheet.Proofs.Store.Fresh

/-!
# What producers make

A producer that is evaluated makes an element of new nodes only, so that there is nothing old below
what takes its place.
-/

namespace Spreadsheet

open Store

namespace StoreM

variable {s t : Store}

/-! ## From formulas -/

theorem newFormulaCell_makes (wf : s.WellFormed) {f : Formula} {c : CellId}
    (h : Leads (newFormulaCell f) s c t) : Grows [] s t ∧ Fills s t ∧ Fresh s t (.cell c) := by
  cases f with
  | literal value => exact newCell_makes wf ⟨Nat.le_refl 1, Nat.le_refl 1⟩ h
  | _ => exact newCell_makes wf ⟨Nat.le_refl 1, Nat.le_refl 1⟩ h

theorem fresh_of_mem_map {α : Type} {toElement : α → Element} {l : List α}
    (h : ∀ a ∈ l, Fresh s t (toElement a)) : ∀ z ∈ l.map toElement, Fresh s t z := by
  intro z hz
  obtain ⟨a, ha, rfl⟩ := List.mem_map.1 hz
  exact h a ha

theorem vectorOf_makes (wf : s.WellFormed) {series : Series} {v : VectorId}
    (h : Leads (vectorOf series) s v t) : Grows [] s t ∧ Fills s t ∧ Fresh s t (.vector v) := by
  simp only [vectorOf, leads_bind] at h
  obtain ⟨cells, m, first, second⟩ := h
  obtain ⟨g, fills, fresh⟩ := makes_mapM .cell wf
    (fun _ s c t wf step => newFormulaCell_makes wf step) first
  exact newVector_fresh g fills (fresh_of_mem_map fresh) second

theorem elementOf_makes (wf : s.WellFormed) {grid : Grid} {e : Element}
    (h : Leads (elementOf grid) s e t) : Grows [] s t ∧ Fills s t ∧ Fresh s t e := by
  cases grid with
  | scalar f =>
      simp only [elementOf, leads_bind, leads_pure] at h
      obtain ⟨c, _, made, rfl, rfl⟩ := h
      exact newFormulaCell_makes wf made
  | series items =>
      simp only [elementOf, leads_bind, leads_pure] at h
      obtain ⟨v, _, made, rfl, rfl⟩ := h
      exact vectorOf_makes wf made
  | table vectors o =>
      simp only [elementOf, leads_bind, leads_pure] at h
      obtain ⟨ids, m, first, f, _, second, rfl, rfl⟩ := h
      obtain ⟨g, fills, fresh⟩ := makes_mapM .vector wf
        (fun _ s v t wf step => vectorOf_makes wf step) first
      exact newFrame_fresh g fills (fresh_of_mem_map fresh) second

/-! ## Copies -/

theorem copyCell_makes (wf : s.WellFormed) {c d : CellId} (h : Leads (copyCell c) s d t) :
    Grows [] s t ∧ Fills s t ∧ Fresh s t (.cell d) := by
  simp only [copyCell, leads_bind, leads_get] at h
  obtain ⟨_, _, ⟨rfl, rfl⟩, made⟩ := h
  refine newCell_makes wf ?_ made
  exact wf.merges c

theorem copyVector_makes (wf : s.WellFormed) {v w : VectorId} (h : Leads (copyVector v) s w t) :
    Grows [] s t ∧ Fills s t ∧ Fresh s t (.vector w) := by
  simp only [copyVector, leads_bind, leads_get] at h
  obtain ⟨_, _, ⟨rfl, rfl⟩, _, _, ⟨rfl, rfl⟩, cells, m, first, second⟩ := h
  obtain ⟨g, fills, fresh⟩ := makes_mapM .cell wf
    (fun _ s c t wf step => copyCell_makes wf step) first
  exact newVector_fresh g fills (fresh_of_mem_map fresh) second

theorem copyFrame_makes (wf : s.WellFormed) {f f' : FrameId} (h : Leads (copyFrame f) s f' t) :
    Grows [] s t ∧ Fills s t ∧ Fresh s t (.frame f') := by
  simp only [copyFrame, leads_bind, leads_get] at h
  obtain ⟨_, _, ⟨rfl, rfl⟩, _, _, ⟨rfl, rfl⟩, vectors, m, first, second⟩ := h
  obtain ⟨g, fills, fresh⟩ := makes_mapM .vector wf
    (fun _ s v t wf step => copyVector_makes wf step) first
  exact newFrame_fresh g fills (fresh_of_mem_map fresh) second

end StoreM

/-! ## Operations of a build -/

namespace BuildM

variable {α β : Type} {s : Store} {b : Build}

/-- An operation keeps what every step keeps since an earlier store, whether or not it fails, and
leaves a store that fits its answer. -/
def Evolving (s : Store) (m : BuildM α) (b : Build) (Q : α → Store → Prop) : Prop :=
  Ensures m b (fun b' => Evolves s b'.store) fun a b' => Q a b'.store

theorem Evolving.bind {m : BuildM α} {f : α → BuildM β} {P : α → Store → Prop}
    {Q : β → Store → Prop} (hm : Evolving s m b P)
    (hf : ∀ a b', Evolves s b'.store → P a b'.store → Evolving s (f a) b' Q) :
    Evolving s (m >>= f) b Q :=
  Ensures.bind hm hf

theorem Evolving.pure {a : α} {Q : α → Store → Prop} (g : Evolves s b.store) (h : Q a b.store) :
    Evolving s (pure a) b Q :=
  Ensures.pure g h

theorem Evolving.throw {e : SheetError} {Q : α → Store → Prop} (g : Evolves s b.store) :
    Evolving s (throw e) b Q :=
  Ensures.throw g

theorem Evolving.get_bind {f : Build → BuildM β} {Q : β → Store → Prop}
    (h : Evolving s (f b) b Q) : Evolving s (get >>= f) b Q :=
  h

theorem Evolving.ite {c : Prop} [Decidable c] {m m' : BuildM α} {Q : α → Store → Prop}
    (h : c → Evolving s m b Q) (h' : ¬c → Evolving s m' b Q) :
    Evolving s (if c then m else m') b Q :=
  Ensures.ite h h'

theorem Evolving.since {m : BuildM α} {P Q : α → Store → Prop} (g : Evolves s b.store)
    (h : Evolving b.store m b P)
    (imp : ∀ a t, Evolves b.store t → P a t → Q a t) : Evolving s m b Q :=
  h.imp (fun _ later => g.trans later) fun a b' later => imp a b'.store later

theorem Evolving.imp {m : BuildM α} {P Q : α → Store → Prop} (h : Evolving s m b P)
    (imp : ∀ a t, Evolves s t → P a t → Q a t) : Evolving s m b Q :=
  Ensures.imp h (fun _ g => g) fun a b' g => imp a b'.store g

theorem evolving_modify {f : Build → Build} (g : Evolves s b.store)
    (alike : Alike b.store (f b).store) {Q : Unit → Store → Prop} (h : Q () (f b).store) :
    Evolving s (modify f) b Q :=
  Ensures.modify (g.trans (alike.evolves g.wf)) h

theorem evolving_liftStore {m : StoreM α} {Q : α → Store → Prop}
    (h : ∀ a t, Leads m b.store a t → Evolves s t ∧ Q a t) : Evolving s (liftStore m) b Q :=
  ensures_liftStore h

theorem evolving_ofExcept {x : Except SheetError α} (g : Evolves s b.store) :
    Evolving s (ofExcept x) b fun _ _ => True := by
  cases x with
  | ok a => exact .pure g trivial
  | error e => exact .throw g

theorem registerId_keeps (key : String) (e : Element) (g : Evolves s b.store) :
    Evolving s (registerId key e) b fun _ _ => True := by
  unfold registerId
  split
  · exact evolving_modify g (.refl _) trivial
  · exact .throw g

theorem registerHeader_keeps (key : String) (e : Element) (g : Evolves s b.store) :
    Evolving s (registerHeader key e) b fun _ _ => True := by
  unfold registerHeader
  split
  · exact evolving_modify g (.refl _) trivial
  · exact .pure g trivial

theorem evolving_changeStore {f : Store → Store} (g : Evolves s b.store)
    (alike : Alike b.store (f b.store)) : Evolving s (changeStore f) b fun _ _ => True :=
  evolving_modify g alike trivial

theorem elementFor_fresh {v : Value} {reference : Bool} (wf : b.store.WellFormed) :
    Evolving b.store (elementFor v reference) b fun e t => Fresh b.store t e := by
  have made : ∀ (m : StoreM Element), (∀ e t, Leads m b.store e t →
      Grows [] b.store t ∧ Fills b.store t ∧ Fresh b.store t e) →
      Evolving b.store (liftStore m) b fun e t => Fresh b.store t e :=
    fun m h => evolving_liftStore fun e t step => ⟨(h e t step).1.toEvolves, (h e t step).2.2⟩
  have copied : ∀ {ι : Type} (m : StoreM ι) (toElement : ι → Element), (∀ i t, Leads m b.store i t →
      Grows [] b.store t ∧ Fills b.store t ∧ Fresh b.store t (toElement i)) →
      Evolving b.store (do return toElement (← liftStore m)) b fun e t => Fresh b.store t e := by
    intro ι m toElement h
    refine Evolving.bind (P := fun i t => Fresh b.store t (toElement i)) ?_
      fun i b' g fresh => .pure g fresh
    exact evolving_liftStore fun i t step => ⟨(h i t step).1.toEvolves, (h i t step).2.2⟩
  unfold elementFor
  refine Evolving.get_bind ?_
  split
  · exact made _ fun e t step => StoreM.elementOf_makes wf step
  · exact .throw (.refl wf)
  · exact copied _ .cell fun c t step => StoreM.copyCell_makes wf step
  · exact copied _ .vector fun c t step => StoreM.copyVector_makes wf step
  · exact copied _ .frame fun c t step => StoreM.copyFrame_makes wf step
  · show Evolving b.store (ofExcept (b.store.gridOf _) >>= fun grid =>
      liftStore (StoreM.elementOf grid)) b fun e t => Fresh b.store t e
    refine Evolving.bind (evolving_ofExcept (.refl wf)) fun grid b' g _ => ?_
    refine evolving_liftStore fun e t step => ?_
    obtain ⟨g', -, fresh⟩ := StoreM.elementOf_makes g.wf step
    exact ⟨g.trans g'.toEvolves, fresh.earlier g.held⟩

end BuildM

end Spreadsheet
