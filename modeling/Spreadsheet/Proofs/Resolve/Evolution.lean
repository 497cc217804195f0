import Spreadsheet.Proofs.Resolve.Binding
import Spreadsheet.Proofs.Resolve.Declared
import Spreadsheet.Proofs.Resolve.Produced

/-!
# Resolving keeps the trees well formed

Producers give way to what they make, which is new throughout; so no container comes to lie below
itself, however often and in whatever order producers are replaced, and whether or not resolving
succeeds in the end.
-/

namespace Spreadsheet.BuildM

open Store

variable {s : Store} {b : Build}

/-! ## Producing -/

theorem setId_keeps (e : Element) (id : String) (g : Evolves s b.store) :
    Evolving s (setId e id) b fun _ _ => True := by
  refine (registerId_keeps id e g).bind fun _ b' g' _ => evolving_changeStore g' ?_
  cases e with
  | cell c => exact alike_updateCell _ c fun _ => (rfl)
  | expression x => exact (relabels_updateExpression _ x _).toAlike
  | call c => exact (relabels_updateCall _ c _).toAlike
  | _ => exact alike_updateAttributes _ _ _

theorem setHeader_keeps (e : Element) (header : String) (g : Evolves s b.store) :
    Evolving s (setHeader e header) b fun _ _ => True := by
  refine (registerHeader_keeps header e g).bind fun _ b' g' _ => evolving_changeStore g' ?_
  cases e with
  | cell c => exact alike_updateCell _ c fun _ => (rfl)
  | vector v => exact alike_updateVector _ v fun _ => rfl
  | expression x => exact (relabels_updateExpression _ x _).toAlike
  | call c => exact (relabels_updateCall _ c _).toAlike
  | _ => exact .refl _

theorem alike_inheritStyles (d : Declared) (e : Element) (t : Store) :
    Alike t (t.inheritStyles d e) := by
  unfold Store.inheritStyles
  cases e with
  | cell c => exact alike_updateCell t c fun _ => rfl
  | _ => exact alike_updateAttributes t _ _

theorem takeName_keeps {bare : Store → Bool} {set register : String → BuildM Unit}
    (hset : ∀ name b, Evolves s b.store → Evolving s (set name) b fun _ _ => True)
    (hregister : ∀ name b, Evolves s b.store → Evolving s (register name) b fun _ _ => True)
    (name : Option String) (g : Evolves s b.store) :
    Evolving s (takeName bare set register name) b fun _ _ => True := by
  cases name with
  | none => exact .pure g trivial
  | some name =>
      exact Evolving.get_bind (Evolving.ite (fun _ => hset name b g) fun _ => hregister name b g)

theorem applyDeclared_keeps (d : Declared) (e : Element) (g : Evolves s b.store) :
    Evolving s (applyDeclared d e) b fun _ _ => True := by
  rw [applyDeclared_eq]
  apply Evolving.bind (takeName_keeps (fun id b g => setId_keeps e id g)
    (fun id b g => registerId_keeps id e g) d.id g)
  intro _ b' g' _
  apply Evolving.bind (takeName_keeps (fun header b g => setHeader_keeps e header g)
    (fun header b g => registerHeader_keeps header e g) d.header g')
  intro _ b'' g'' _
  exact evolving_changeStore g'' (alike_inheritStyles d e _)

/-- The element that a producer makes is new, and so it is once it has taken over names. -/
theorem produced_fresh {x : Except SheetError Value} {reference : Bool} {d : Declared}
    (wf : b.store.WellFormed) :
    Evolving b.store (do
      let element ← elementFor (← ofExcept x) reference
      applyDeclared d element
      return element) b fun e t => Fresh b.store t e := by
  refine Evolving.bind (evolving_ofExcept (.refl wf)) fun value b₁ g₁ _ => ?_
  refine Evolving.bind (P := fun x t => Fresh b.store t x) ?_ fun x b₂ g₂ fresh => ?_
  · exact Evolving.since g₁ (elementFor_fresh g₁.wf) fun x t _ fresh => fresh.earlier g₁.held
  · refine Evolving.bind (P := fun _ t => Fresh b.store t x) ?_ fun _ b₃ g₃ fresh' =>
      .pure g₃ fresh'
    refine Evolving.since g₂ (applyDeclared_keeps _ x (.refl g₂.wf)) fun _ t g' _ => ?_
    exact fresh.later g₂.held g'

theorem evalExpression_fresh (e : ExpressionId) (hint : Option Dimension) (reference : Bool)
    (wf : b.store.WellFormed) :
    Evolving b.store (evalExpression e hint reference) b fun x t => Fresh b.store t x :=
  Evolving.get_bind (produced_fresh wf)

theorem evalCall_fresh (c : CallId) (hint : Option Dimension) (wf : b.store.WellFormed) :
    Evolving b.store (evalCall c hint) b fun x t => Fresh b.store t x :=
  Evolving.get_bind (produced_fresh wf)

theorem produce?_fresh (container child : Element) (wf : b.store.WellFormed) :
    Evolving b.store (produce? container child) b fun r t =>
      ∀ x, r = some x → Fresh b.store t x := by
  cases child with
  | expression e =>
      have attempt : Evolving b.store (attemptExpression (some container) e) b fun _ _ => True :=
        Evolving.bind (P := fun _ _ => True)
          (evolving_modify (.refl wf) (Build.bindKeys_binds _ e b).toAlike trivial)
          fun _ b' g _ => Evolving.get_bind (.pure g trivial)
      refine attempt.bind fun ready b' g _ => ?_
      split
      · refine Evolving.bind (P := fun x t => Fresh b.store t x) ?_ fun x b'' g' fresh =>
          .pure g' fun y hy => by cases hy; exact fresh
        exact Evolving.since g (evalExpression_fresh e _ _ g.wf) fun x t _ fresh =>
          fresh.earlier g.held
      · exact .pure g fun y hy => by cases hy
  | call c =>
      have attempt : Evolving b.store (attemptCall (some container) c) b fun _ _ => True := by
        have first : Evolving b.store (modify fun b' =>
            (b.store.call c).args.foldl (Build.bindArgument (some container)) b') b
            fun _ _ => True :=
          evolving_modify (.refl wf) (Build.bindArguments_binds _ _ b).toAlike trivial
        exact Evolving.get_bind (first.bind fun _ b' g _ => Evolving.get_bind (.pure g trivial))
      refine attempt.bind fun ready b' g _ => ?_
      split
      · refine Evolving.bind (P := fun x t => Fresh b.store t x) ?_ fun x b'' g' fresh =>
          .pure g' fun y hy => by cases hy; exact fresh
        exact Evolving.since g (evalCall_fresh c _ g.wf) fun x t _ fresh => fresh.earlier g.held
      · exact .pure g fun y hy => by cases hy
  | _ => exact .pure (.refl wf) fun y hy => by cases hy

/-! ## Fitting -/

/-- Whether all elements of a list are nodes with nothing below them that is older than a store. -/
def Apiece (s t : Store) (l : List Element) : Prop :=
  ∀ z ∈ l, t.InStore z ∧ Apart s t z

theorem promoted_fresh {c : CellId} {o : Orientation} (g : Evolves s b.store)
    (hc : b.store.InStore (.cell c)) :
    Evolving b.store (promoted c o) b fun e t => Apiece s t [e] := by
  refine Evolving.bind (P := fun v t => Apiece s t [.vector v]) (evolving_liftStore ?_)
    fun v b' g' fresh => .pure g' fresh
  intro v t step
  simp only [StoreM.promote, leads_bind, leads_get] at step
  obtain ⟨_, _, ⟨rfl, rfl⟩, made⟩ := step
  have children : ∀ z ∈ ([.cell c] : List Element), b.store.InStore z := by
    intro z hz
    rwa [List.mem_singleton.1 hz]
  obtain ⟨g', -, inside, new, below⟩ := StoreM.newVector_makes g.wf (by simp) children made
  refine ⟨g'.toEvolves, fun z hz => ?_⟩
  rw [List.mem_singleton.1 hz]
  refine ⟨inside, .of_children (fun old => new (g.held _ old)) fun child hchild => ?_⟩
  rw [below, List.mem_singleton] at hchild
  rw [hchild]
  exact .of_not_isContainer rfl

theorem alike_turned (o : Orientation) (vectors : List VectorId) (s : Store) :
    Alike s (vectors.foldl (fun s v => s.updateVector v ({ · with orientation := o })) s) := by
  induction vectors generalizing s with
  | nil => exact .refl s
  | cons v rest ih =>
      refine (alike_updateVector s v ?_).trans (ih _)
      exact fun _ => rfl

theorem turnVectors_fresh {o : Orientation} {vectors : List VectorId} (g : Evolves s b.store)
    (fresh : Apiece s b.store (vectors.map .vector)) :
    Evolving b.store (turnVectors o vectors) b fun l t => Apiece s t l := by
  refine Evolving.bind (P := fun _ t => Apiece s t (vectors.map .vector)) ?_
    fun _ b' g' fresh' => .pure g' fresh'
  refine (evolving_changeStore (.refl g.wf) (alike_turned o vectors _)).imp fun _ t g' _ z hz => ?_
  exact ⟨g'.held z (fresh z hz).1, (fresh z hz).2.later g.held g' (fresh z hz).1⟩

theorem fit_fresh (container : Element) {produced : Element} (g : Evolves s b.store)
    (fresh : Fresh s b.store produced) :
    Evolving b.store (fit container produced) b fun l t => Apiece s t l := by
  have still := Evolves.refl g.wf
  have single : Apiece s b.store [produced] := by
    intro z hz
    rw [List.mem_singleton.1 hz]
    exact ⟨fresh.inStore, fresh.apart⟩
  have below : ∀ z ∈ b.store.children produced, b.store.InStore z ∧ Apart s b.store z :=
    fun z hz => ⟨g.wf.closed _ _ hz, fresh.apart.child hz⟩
  have refused : ∀ child, Evolving b.store (refuse (α := List Element) container child) b
      fun l t => Apiece s t l := fun child => Evolving.get_bind (.throw still)
  have alone : ∀ {m : BuildM Element}, Evolving b.store m b (fun e t => Apiece s t [e]) →
      Evolving b.store (do return [← m]) b fun l t => Apiece s t l :=
    fun h => h.bind fun e b' g' piece => Evolving.pure g' piece
  unfold fit
  refine Evolving.get_bind ?_
  split
  · exact .pure still single
  · exact .pure still fun z hz => below z (List.mem_of_mem_drop hz)
  · exact refused _
  · exact alone (promoted_fresh g fresh.inStore)
  · exact turnVectors_fresh g single
  · refine turnVectors_fresh g fun z hz => ?_
    obtain ⟨v, hv, rfl⟩ := List.mem_map.1 hz
    exact below _ (mem_frameVectors.1 hv)
  · exact refused _
  · exact alone (promoted_fresh g fresh.inStore)
  · exact .pure still single

/-! ## Passes -/

/-- Whether an element may stand among the children of a container: it has been there, or it is new
since then. -/
def Standing (s t : Store) (container z : Element) : Prop :=
  z ∈ s.children container ∨ t.InStore z ∧ Apart s t z

theorem Standing.later {t u : Store} {container z : Element} (h : Standing s t container z)
    (g : Evolves s t) (g' : Evolves t u) : Standing s u container z :=
  h.imp id fun new => ⟨g'.held z new.1, new.2.later g.held g' new.1⟩

theorem passChildren_keeps {below : Element → BuildM Bool} {container : Element}
    (hbelow : ∀ child b, b.store.WellFormed → b.store.InStore child →
      Evolving b.store (below child) b fun _ _ => True)
    (wf : s.WellFormed) (hs : s.InStore container) (hc : container.isContainer = true)
    {before list : List Element} (g : Evolves s b.store)
    (standing : ∀ z ∈ before ++ list, Standing s b.store container z) :
    Evolving s (passChildren below container before list) b fun _ _ => True := by
  induction list generalizing before b with
  | nil => exact .pure g trivial
  | cons child rest ih =>
      have moved : ∀ {t : Store}, Evolves b.store t →
          ∀ z ∈ (before ++ [child]) ++ rest, Standing s t container z := fun g' z hz =>
        (standing z (by simpa using hz)).later g g'
      simp only [passChildren]
      refine Evolving.ite (fun _ => ?_) fun _ => Evolving.ite (fun _ => ?_) fun _ => ?_
      · have inside : b.store.InStore child := by
          rcases standing child (by simp) with old | new
          · exact g.held child (wf.closed container child old)
          · exact new.1
        refine Evolving.bind (Evolving.since g (hbelow child b g.wf inside) fun _ _ g' _ => g')
          fun done b' _ g' => ?_
        exact (ih (g.trans g') (moved g')).bind fun _ b'' g'' _ => .pure g'' trivial
      · refine Evolving.bind (P := fun r t => Evolves b.store t ∧
          ∀ x, r = some x → Fresh b.store t x) (Evolving.since g (produce?_fresh container child
            g.wf) fun r t g' fresh => ⟨g', fresh⟩) ?_
        rintro r b₁ - ⟨g₁, fresh⟩
        cases r with
        | none =>
            exact (ih (g.trans g₁) (moved g₁)).bind fun _ b'' g'' _ => .pure g'' trivial
        | some produced =>
            have new : Fresh s b₁.store produced := (fresh produced rfl).earlier g.held
            refine Evolving.bind (P := fun l t => Evolves b₁.store t ∧ Apiece s t l)
              (Evolving.since (g.trans g₁) (fit_fresh container (g.trans g₁) new)
                fun l t g₂ piece => ⟨g₂, piece⟩) ?_
            rintro spliced b₂ - ⟨g₂, piece⟩
            have old : ∀ z ∈ before ++ rest, Standing s b₂.store container z := fun z hz =>
              (standing z (by simp at hz ⊢; tauto)).later g (g₁.trans g₂)
            have since := g.trans (g₁.trans g₂)
            have inside : b₂.store.InStore container := since.held _ hs
            have set := children_setChildren_self inside hc (before ++ spliced ++ rest)
            have standingNow : ∀ z ∈ before ++ spliced ++ rest,
                Standing s b₂.store container z := by
              intro z hz
              by_cases fresh' : z ∈ spliced
              · exact .inr (piece z fresh')
              · exact old z (by simp at hz ⊢; tauto)
            have allowed : ∀ z ∈ (b₂.store.setChildren container
                (before ++ spliced ++ rest)).children container,
                Allowed s b₂.store container z := by
              intro z hz
              rw [set] at hz
              rcases standingNow z hz with there | new
              · exact since.allowed_child wf there
              · exact .of_apart new.1 new.2
            have regroups := regroups_setChildren b₂.store container (before ++ spliced ++ rest)
            have next := since.regroup wf hs hc regroups allowed
            refine Evolving.bind (P := fun _ t => t = b₂.store.setChildren container
              (before ++ spliced ++ rest)) ⟨next, fun _ _ => rfl⟩ fun _ b₃ _ stored => ?_
            refine Evolving.bind (P := fun _ t => t = b₂.store.setChildren container
              (before ++ spliced ++ rest))
              ⟨show Evolves s b₃.store from stored ▸ next, fun _ _ => stored⟩
              fun _ b₄ _ swept => ?_
            refine ih (swept ▸ next) fun z hz => ?_
            rw [swept]
            rcases standingNow z hz with there | new
            · exact .inl there
            · exact .inr ⟨(regroups.inStore z).2 new.1, regroups.apart hs hc new.2⟩
      · exact ih g (moved (.refl g.wf))

theorem passWithin_keeps (fuel : Nat) (container : Element) (wf : b.store.WellFormed)
    (hc : b.store.InStore container) :
    Evolving b.store (passWithin fuel container) b fun _ _ => True := by
  induction fuel generalizing container b with
  | zero => exact .pure (.refl wf) trivial
  | succ fuel ih =>
      refine Evolving.get_bind ?_
      cases container? : container.isContainer with
      | true =>
          refine passChildren_keeps (fun child b wf hi => ih child wf hi) wf hc container?
            (.refl wf) fun z hz => .inl ?_
          simpa using hz
      | false =>
          have none : b.store.children container = [] := by
            cases container <;> first | rfl | cases container?
          rw [none]
          exact .pure (.refl wf) trivial

theorem passAll_keeps {roots : List Element} (g : Evolves s b.store)
    (hroots : ∀ r ∈ roots, s.InStore r) :
    Evolving s (passAll roots) b fun _ _ => True := by
  induction roots generalizing b with
  | nil => exact .pure g trivial
  | cons root rest ih =>
      have first : Evolving s (pass root) b fun _ _ => True :=
        Evolving.get_bind (Evolving.since g
          (passWithin_keeps _ root g.wf (g.held root (hroots root (by simp))))
          fun _ _ _ _ => trivial)
      refine first.bind fun done b' g' _ => ?_
      exact (ih g' fun r hr => hroots r (List.mem_cons_of_mem _ hr)).bind fun _ b'' g'' _ =>
        .pure g'' trivial

theorem resolveWithin_keeps {roots : List Element} (attempts : Nat) (last : Option Nat)
    (g : Evolves s b.store) (hroots : ∀ r ∈ roots, s.InStore r) :
    Evolving s (resolveWithin roots attempts last) b fun _ _ => True := by
  induction attempts generalizing last b with
  | zero => exact Evolving.get_bind (.throw g)
  | succ attempts ih =>
      simp only [resolveWithin]
      refine (passAll_keeps g hroots).bind fun done b' g' _ => ?_
      refine Evolving.ite (fun _ => .pure g' trivial) fun _ => Evolving.get_bind ?_
      exact Evolving.ite (fun _ => Evolving.get_bind (Evolving.bind (P := fun _ _ => True)
        (.throw g') fun _ b'' g'' _ => ih _ g'')) fun _ => ih _ g'

theorem resolve_keeps {roots : List Element} (g : Evolves s b.store)
    (hroots : ∀ r ∈ roots, s.InStore r) : Evolving s (resolve roots) b fun _ _ => True :=
  Evolving.get_bind (resolveWithin_keeps _ none g hroots)

theorem tryResolve_keeps {roots : List Element} (g : Evolves s b.store)
    (hroots : ∀ r ∈ roots, s.InStore r) :
    Evolving s (do
      try resolve roots
      catch
        | .unresolvedReference .. => pure ()
        | e => throw e) b fun _ _ => True := by
  refine Ensures.tryCatch (resolve_keeps g hroots) fun e b' g' => ?_
  cases e with
  | unresolvedReference => exact Ensures.pure g' trivial
  | _ => exact Ensures.throw g'

/-- Resolving a workbook keeps the trees well formed, also where a sheet cannot be resolved apart. -/
theorem resolveFrom_keeps {wb : Workbook} {roots : List Element} {sheets : List Sheet}
    (g : Evolves s b.store) (hroots : ∀ r ∈ roots, s.InStore r)
    (hsheets : ∀ sheet ∈ sheets, s.InStore sheet.element) :
    Evolving s (wb.resolveFrom roots sheets) b fun _ _ => True := by
  induction sheets generalizing roots b with
  | nil => exact resolve_keeps g hroots
  | cons sheet rest ih =>
      have more : ∀ r ∈ roots ++ [sheet.element], s.InStore r := by
        intro r hr
        rcases List.mem_append.1 hr with hr | hr
        · exact hroots r hr
        · rw [List.mem_singleton.1 hr]
          exact hsheets sheet (by simp)
      have others := fun other hother => hsheets other (List.mem_cons_of_mem _ hother)
      simp only [Workbook.resolveFrom]
      refine Evolving.ite (fun _ => ?_) fun _ => ih g more others
      refine (tryResolve_keeps g more).bind fun _ b' g' _ => ?_
      refine Evolving.bind (P := fun _ _ => True) (evolving_modify g' (.refl _) trivial)
        fun _ b'' g'' _ => ih g'' more others

theorem workbookResolve_evolves {wb : Workbook} {b' : Build} {r : Unit}
    (wf : b.store.WellFormed) (hsheets : ∀ sheet ∈ wb.sheets, b.store.InStore sheet.element)
    (h : Runs wb.resolve b r b') : Evolves b.store b'.store :=
  ((resolveFrom_keeps (.refl wf) (by simp) hsheets).of_runs h).1

end Spreadsheet.BuildM
