import Spreadsheet.Resolve.FixedPoint
import Spreadsheet.Proofs.Resolve.Declared

/-!
# The limit on passes

Nothing that is done in a pass depends on how many passes are allowed: with another limit every
operation gives the same answer and leaves the same build, but for the limit itself.
-/

namespace Spreadsheet

/-- A build with another limit on the number of passes. -/
def Build.withLimit (b : Build) (limit : Nat) : Build :=
  { b with config.maxResolveAttempts := limit }

namespace Build

variable {container : Option Element} {e : ExpressionId} {limit : Nat}

theorem bindKey_withLimit (b : Build) (key : Template.Key) :
    (b.withLimit limit).bindKey container e key = (b.bindKey container e key).withLimit limit := by
  have same : (b.withLimit limit).find? container key = b.find? container key := by
    cases key <;> rfl
  simp only [bindKey, same]
  split
  case h_1 found _ =>
    rw [show (b.withLimit limit).store = b.store from rfl]
    split <;> rfl
  case h_2 => rfl

theorem bindKeys_withLimit (b : Build) :
    (b.withLimit limit).bindKeys container e = (b.bindKeys container e).withLimit limit := by
  have fold : ∀ (keys : List Template.Key) (b : Build),
      keys.foldl (bindKey container e) (b.withLimit limit) =
        (keys.foldl (bindKey container e) b).withLimit limit := by
    intro keys
    induction keys with
    | nil => exact fun _ => rfl
    | cons key rest ih =>
        intro b
        rw [List.foldl_cons, List.foldl_cons, bindKey_withLimit, ih]
  exact fold (b.store.unboundKeys e) b

theorem bindArguments_withLimit (args : List Argument) (b : Build) :
    args.foldl (bindArgument container) (b.withLimit limit) =
      (args.foldl (bindArgument container) b).withLimit limit := by
  induction args generalizing b with
  | nil => rfl
  | cons arg rest ih =>
      have first : bindArgument container (b.withLimit limit) arg =
          (bindArgument container b arg).withLimit limit := by
        cases arg with
        | expression e => exact bindKeys_withLimit b
        | _ => rfl
      rw [List.foldl_cons, List.foldl_cons, first, ih]

end Build

namespace BuildM

variable {α β : Type}

/-- Whether an operation does the same whatever the limit. -/
def Unlimited (m : BuildM α) : Prop :=
  ∀ b limit, (m (b.withLimit limit) : Except SheetError α × Build) =
    ((m b : Except SheetError α × Build).1, (m b : Except SheetError α × Build).2.withLimit limit)

theorem Unlimited.pure (a : α) : Unlimited (pure a) :=
  fun _ _ => rfl

theorem Unlimited.throw (e : SheetError) : Unlimited (throw e : BuildM α) :=
  fun _ _ => rfl

theorem Unlimited.modify {f : Build → Build}
    (h : ∀ b limit, f (b.withLimit limit) = (f b).withLimit limit) : Unlimited (modify f) :=
  fun b limit => Prod.ext rfl (h b limit)

theorem Unlimited.changeStore (f : Store → Store) : Unlimited (changeStore f) :=
  fun _ _ => rfl

theorem Unlimited.liftStore (m : StoreM α) : Unlimited (liftStore m) :=
  fun _ _ => rfl

theorem Unlimited.bind {m : BuildM α} {f : α → BuildM β} (hm : Unlimited m)
    (hf : ∀ a, Unlimited (f a)) : Unlimited (m >>= f) := by
  intro b limit
  rw [bind_apply, bind_apply, hm b limit]
  rcases (m b : Except SheetError α × Build) with ⟨e | a, t⟩
  · rfl
  · exact hf a t limit

/-- What is read off a build must not be the limit. -/
theorem Unlimited.get_bind {f : Build → BuildM β}
    (same : ∀ b limit, f (b.withLimit limit) = f b) (h : ∀ b, Unlimited (f b)) :
    Unlimited (get >>= f) := by
  intro b limit
  show (f (b.withLimit limit) (b.withLimit limit) : Except SheetError β × Build) = _
  rw [same b limit]
  exact h b b limit

theorem Unlimited.ite {c : Prop} [Decidable c] {m m' : BuildM α} (h : Unlimited m)
    (h' : Unlimited m') : Unlimited (if c then m else m') := by
  split
  · exact h
  · exact h'

theorem Unlimited.ofExcept (x : Except SheetError α) : Unlimited (ofExcept x) := by
  cases x with
  | ok a => exact .pure a
  | error e => exact .throw e

theorem refuse_unlimited (container child : Element) :
    Unlimited (refuse container child : BuildM α) :=
  .get_bind (fun _ _ => rfl) fun _ => .throw _

theorem registerId_unlimited (key : String) (e : Element) : Unlimited (registerId key e) :=
  .ite (.modify fun _ _ => rfl) (.throw _)

theorem registerHeader_unlimited (key : String) (e : Element) : Unlimited (registerHeader key e) :=
  .ite (.modify fun _ _ => rfl) (.pure _)

theorem setId_unlimited (e : Element) (id : String) : Unlimited (setId e id) :=
  (registerId_unlimited id e).bind fun _ => .changeStore _

theorem setHeader_unlimited (e : Element) (header : String) : Unlimited (setHeader e header) :=
  (registerHeader_unlimited header e).bind fun _ => .changeStore _

theorem Unlimited.takeName {bare : Store → Bool} {set register : String → BuildM Unit}
    (hset : ∀ name, Unlimited (set name)) (hregister : ∀ name, Unlimited (register name))
    (name : Option String) : Unlimited (takeName bare set register name) := by
  cases name with
  | none => exact .pure ()
  | some name => exact .get_bind (fun _ _ => rfl) fun _ => .ite (hset name) (hregister name)

theorem applyDeclared_unlimited (d : Declared) (e : Element) : Unlimited (applyDeclared d e) := by
  rw [applyDeclared_eq]
  apply (Unlimited.takeName (setId_unlimited e) (fun id => registerId_unlimited id e) d.id).bind
  intro _
  apply (Unlimited.takeName (setHeader_unlimited e) (fun header => registerHeader_unlimited header e)
    d.header).bind
  intro _
  exact .changeStore _

theorem elementFor_unlimited (v : Value) (reference : Bool) : Unlimited (elementFor v reference) := by
  refine .get_bind (fun _ _ => rfl) fun b => ?_
  split
  · exact .liftStore _
  · exact .throw _
  · exact (Unlimited.liftStore _).bind fun _ => .pure _
  · exact (Unlimited.liftStore _).bind fun _ => .pure _
  · exact (Unlimited.liftStore _).bind fun _ => .pure _
  · exact (Unlimited.ofExcept _).bind fun _ => .liftStore _

theorem produced_unlimited (x : Except SheetError Value) (reference : Bool) (d : Declared) :
    Unlimited (do
      let element ← elementFor (← ofExcept x) reference
      applyDeclared d element
      return element) :=
  (Unlimited.ofExcept x).bind fun _ => (elementFor_unlimited _ reference).bind fun _ =>
    (applyDeclared_unlimited d _).bind fun _ => .pure _

theorem attemptExpression_unlimited (container : Option Element) (e : ExpressionId) :
    Unlimited (attemptExpression container e) :=
  (Unlimited.modify fun b _ => b.bindKeys_withLimit).bind fun _ =>
    .get_bind (fun _ _ => rfl) fun _ => .pure _

theorem attemptCall_unlimited (container : Option Element) (c : CallId) :
    Unlimited (attemptCall container c) := by
  refine .get_bind (fun _ _ => rfl) fun b => ?_
  refine (Unlimited.modify fun b _ => Build.bindArguments_withLimit _ b).bind fun _ => ?_
  refine .get_bind (fun b limit => ?_) fun _ => .pure _
  have same : (b.withLimit limit).argumentReady = b.argumentReady := by
    funext arg
    cases arg <;> rfl
  rw [same]

theorem produce?_unlimited (container child : Element) : Unlimited (produce? container child) := by
  cases child with
  | expression e =>
      refine (attemptExpression_unlimited _ e).bind fun _ => .ite ?_ (.pure _)
      exact Unlimited.bind (.get_bind (fun _ _ => rfl) fun _ => produced_unlimited _ _ _)
        fun _ => .pure _
  | call c =>
      refine (attemptCall_unlimited _ c).bind fun _ => .ite ?_ (.pure _)
      exact Unlimited.bind (.get_bind (fun _ _ => rfl) fun _ => produced_unlimited _ _ _)
        fun _ => .pure _
  | _ => exact .pure _

theorem promoted_unlimited (c : CellId) (o : Orientation) : Unlimited (promoted c o) :=
  (Unlimited.liftStore _).bind fun _ => .pure _

theorem turnVectors_unlimited (o : Orientation) (vectors : List VectorId) :
    Unlimited (turnVectors o vectors) :=
  (Unlimited.changeStore _).bind fun _ => .pure _

theorem fit_unlimited (container produced : Element) : Unlimited (fit container produced) := by
  refine .get_bind (fun _ _ => rfl) fun b => ?_
  split
  · exact .pure _
  · exact .pure _
  · exact refuse_unlimited _ _
  · exact (promoted_unlimited _ _).bind fun _ => .pure _
  · exact turnVectors_unlimited _ _
  · exact turnVectors_unlimited _ _
  · exact refuse_unlimited _ _
  · exact (promoted_unlimited _ _).bind fun _ => .pure _
  · exact .pure _

/-! ## Passes -/

theorem passChildren_unlimited {below : Element → BuildM Bool} (hbelow : ∀ e, Unlimited (below e))
    (container : Element) (before list : List Element) :
    Unlimited (passChildren below container before list) := by
  induction list generalizing before with
  | nil => exact .pure true
  | cons child rest ih =>
      rw [passChildren]
      refine .ite ?_ (.ite ?_ (ih _))
      · exact (hbelow child).bind fun _ => (ih _).bind fun _ => .pure _
      · refine (produce?_unlimited container child).bind fun r => ?_
        cases r with
        | none => exact (ih _).bind fun _ => .pure _
        | some produced =>
            exact (fit_unlimited container produced).bind fun _ => (Unlimited.changeStore _).bind
              fun _ => (Unlimited.modify fun _ _ => rfl).bind fun _ => ih _

theorem passWithin_unlimited (fuel : Nat) (container : Element) :
    Unlimited (passWithin fuel container) := by
  induction fuel generalizing container with
  | zero => exact .pure true
  | succ fuel ih =>
      exact .get_bind (fun _ _ => rfl) fun _ => passChildren_unlimited ih container _ _

theorem passAll_unlimited (roots : List Element) : Unlimited (passAll roots) := by
  induction roots with
  | nil => exact .pure true
  | cons root rest ih =>
      refine Unlimited.bind ?_ fun _ => ih.bind fun _ => .pure _
      exact .get_bind (fun _ _ => rfl) fun _ => passWithin_unlimited _ root

theorem resolveWithin_unlimited (roots : List Element) (attempts : Nat) (last : Option Nat) :
    Unlimited (resolveWithin roots attempts last) := by
  induction attempts generalizing last with
  | zero => exact .get_bind (fun _ _ => rfl) fun _ => .throw _
  | succ attempts ih =>
      refine (passAll_unlimited roots).bind fun _ => .ite (.pure _) ?_
      refine .get_bind (fun _ _ => rfl) fun _ => .ite ?_ (ih _)
      exact .get_bind (fun _ _ => rfl) fun _ => (Unlimited.throw _).bind fun _ => ih _

end BuildM

end Spreadsheet
