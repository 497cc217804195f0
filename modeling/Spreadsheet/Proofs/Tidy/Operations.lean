import Spreadsheet.Arithmetic
import Spreadsheet.Producer
import Spreadsheet.Proofs.Resolve.Complete
import Spreadsheet.Proofs.Tidy.Layout
import Spreadsheet.Proofs.Tidy.Pass

/-!
# Operations on a build

A build is put together by making elements, pushing and inserting them, naming and dressing them,
resolving and laying out.  An operation may only be given elements at hand, and no stack may be put
into itself.  Whatever the order, and whether or not the operations succeed, the trees stay well
shaped.
-/

namespace Spreadsheet

open Store

/-! ## Making elements -/

mutual

/-- The nodes that an operand of a call holds. -/
def Operand.nodes : Operand → List Node
  | .literal _ => []
  | .element e => e.node?.toList
  | .template _ => []
  | .list operands => Operand.allNodes operands
  | .span first last => [.cell first, .cell last]

/-- The nodes that some operands of a call hold. -/
def Operand.allNodes : List Operand → List Node
  | [] => []
  | operand :: rest => operand.nodes ++ Operand.allNodes rest

end

/-- A way to make an element. -/
inductive Making where
  | cell (value : CellValue)
  | vector (orientation : Orientation)
  | frame (orientation : Orientation)
  | stack (orientation : Orientation)
  | expression (template : String)
  | call (name : String) (operands : List Operand)
  /-- A copy of a cell, a vector or a frame. -/
  | copy (e : Element)
  | combine (op : Template.BinaryOp) (lhs rhs : Value)
  | negate (e : Element)
  /-- A cell over the block from one cell to another. -/
  | span (first last : Element)
  /-- What a producer makes, outside any container. -/
  | evaluate (e : Element) (hint : Option Dimension) (reference : Bool)

namespace Making

/-- Make an element. -/
def run : Making → BuildM Element
  | .cell value => return .cell (← BuildM.liftStore (StoreM.newCell { value }))
  | .vector orientation => return .vector (← BuildM.liftStore (StoreM.newVector { orientation }))
  | .frame orientation => return .frame (← BuildM.liftStore (StoreM.newFrame { orientation }))
  | .stack orientation => return .stack (← BuildM.liftStore (StoreM.newStack { orientation }))
  | .expression template => return .expression (← BuildM.newExpression template)
  | .call name operands => return .call (← BuildM.newCall name operands)
  | .copy (.cell c) => return .cell (← BuildM.liftStore (StoreM.copyCell c))
  | .copy (.vector v) => return .vector (← BuildM.liftStore (StoreM.copyVector v))
  | .copy (.frame f) => return .frame (← BuildM.liftStore (StoreM.copyFrame f))
  | .copy e => return e
  | .combine op lhs rhs => BuildM.combine op lhs rhs
  | .negate e => BuildM.negate e
  | .span first last => BuildM.spanCell first last
  | .evaluate (.expression x) hint reference => BuildM.evalExpression x hint reference
  | .evaluate (.call c) hint _ => BuildM.evalCall c hint
  | .evaluate e _ _ => return e

/-- Whether what an element is made of is at hand. -/
def Allowed (b : Build) : Making → Prop
  | .call _ operands => ∀ n ∈ Operand.allNodes operands, b.store.AtHand b.Alive n
  | .copy e | .negate e | .evaluate e _ _ => e.Meets (b.store.AtHand b.Alive)
  | .combine _ lhs rhs =>
    lhs.Meets (b.store.AtHand b.Alive) ∧ rhs.Meets (b.store.AtHand b.Alive)
  | .span first last =>
    first.Meets (b.store.AtHand b.Alive) ∧ last.Meets (b.store.AtHand b.Alive)
  | _ => True

end Making

namespace BuildM

open Build

variable {b t : Build} {α : Type}

/-- A change of nothing but the store leaves a build tidy if it leaves the store tidy. -/
theorem liftStore_tidy (h : b.Tidy) {x : StoreM α}
    (makes : ∀ a s, Leads x b.store a s → Tends b.Alive b.store s) :
    Ensures (liftStore x) b Build.Tidy fun _ _ => True :=
  ensures_liftStore fun a s led => ⟨h.restock (makes a s led).1 (makes a s led).2, trivial⟩

/-- Whether a build came about by making nodes, and some nodes are at hand in it. -/
structure Adds (b t : Build) (nodes : List Node) : Prop where
  use : t.use = b.use
  grown : Grown b.store t.store
  atHand : ∀ n ∈ nodes, t.store.AtHand b.Alive n

theorem newExpression_adds (h : b.Tidy) (text : String) :
    Ensures (newExpression text) b Build.Tidy fun e t => Adds b t [.expression e] := by
  unfold newExpression
  split
  · exact .throw h
  · rename_i template _
    let n : ExpressionNode := { template }
    have born := born_addExpression b.store n
    have self : (b.store.addExpression n).2.expression (b.store.addExpression n).1 = n :=
      (Table.get_push n _).trans (if_pos rfl)
    have store : (b.store.addExpression n).2.Tidy b.Alive := by
      refine h.store.bare born (by nofun) (by nofun) (fun m hm => ?_) rfl
      rw [Store.holds, self] at hm
      cases hm
    refine ensures_liftStore (m := fun s => s.addExpression n) fun e s led => ?_
    obtain rfl : (b.store.addExpression n).1 = e := congrArg Prod.fst led
    obtain rfl : (b.store.addExpression n).2 = s := congrArg Prod.snd led
    refine ⟨h.restock store born.grown.has, rfl, born.grown, fun m hm => ?_⟩
    obtain rfl := List.mem_singleton.1 hm
    exact ⟨born.there, h.store.unborn _ born.new⟩

theorem elementArgument_adds (h : b.Tidy) (name : String) {e : Element}
    (here : e.Meets (b.store.AtHand b.Alive)) :
    Ensures (elementArgument name e) b Build.Tidy fun arg t => Adds b t arg.nodes := by
  have whole : Ensures (return .element e : BuildM Argument) b Build.Tidy
      fun arg t => Adds b t arg.nodes :=
    .pure h ⟨rfl, .refl b.store, fun n hn => here n (Option.mem_toList.1 hn)⟩
  cases e with
  | call c => exact .throw h
  | gap g => exact .throw h
  | expression x =>
      refine .pure h ⟨rfl, .refl b.store, fun n hn => ?_⟩
      obtain rfl := List.mem_singleton.1 hn
      exact here _ rfl
  | _ => exact whole

mutual

theorem arguments_adds {b : Build} (h : b.Tidy) (name : String) (operand : Operand)
    (here : ∀ n ∈ operand.nodes, b.store.AtHand b.Alive n) :
    Ensures (arguments name operand) b Build.Tidy
      fun args t => Adds b t (args.flatMap Argument.nodes) := by
  cases operand with
  | literal value =>
      rw [arguments]
      exact .pure h ⟨rfl, .refl b.store, by simp [Argument.nodes]⟩
  | element e =>
      rw [arguments]
      refine (elementArgument_adds h name fun n hn => here n ?_).bind fun arg t tidy adds =>
        .pure tidy ?_
      · simpa [Operand.nodes] using hn
      · simpa using adds
  | template text =>
      rw [arguments]
      exact (newExpression_adds h text).bind fun e t tidy adds => .pure tidy (by
        simpa [Argument.nodes] using adds)
  | list operands =>
      rw [arguments]
      exact allArguments_adds h name operands (by simpa [Operand.nodes] using here)
  | span first last =>
      rw [arguments]
      refine .pure h ⟨rfl, .refl b.store, ?_⟩
      simpa [Argument.nodes, Operand.nodes] using here

theorem allArguments_adds {b : Build} (h : b.Tidy) (name : String) (operands : List Operand)
    (here : ∀ n ∈ Operand.allNodes operands, b.store.AtHand b.Alive n) :
    Ensures (allArguments name operands) b Build.Tidy
      fun args t => Adds b t (args.flatMap Argument.nodes) := by
  cases operands with
  | nil =>
      rw [allArguments]
      exact .pure h ⟨rfl, .refl b.store, by simp⟩
  | cons operand rest =>
      simp only [Operand.allNodes, List.mem_append] at here
      rw [allArguments]
      refine (arguments_adds h name operand fun n hn => here n (.inl hn)).bind
        fun args t tidy first => ?_
      have still : ∀ n ∈ Operand.allNodes rest, t.store.AtHand t.Alive n := by
        intro n hn
        rw [alive_eq first.use]
        exact (here n (.inr hn)).later first.grown
      refine (allArguments_adds tidy name rest still).bind fun others u tidy' second =>
        .pure tidy' ⟨second.use.trans first.use, first.grown.trans second.grown, ?_⟩
      intro n hn
      rw [List.flatMap_append, List.mem_append] at hn
      rcases hn with hn | hn
      · exact (first.atHand n hn).later second.grown
      · exact alive_eq first.use ▸ second.atHand n hn

end

theorem newCall_tidy (h : b.Tidy) (name : String) (operands : List Operand)
    (here : ∀ n ∈ Operand.allNodes operands, b.store.AtHand b.Alive n) :
    Ensures (newCall name operands) b Build.Tidy fun _ _ => True := by
  refine (ofExcept_gives (P := fun _ => True) h ?_).bind fun name' t _ both => ?_
  · cases functionName name <;> trivial
  obtain ⟨rfl, -⟩ := both
  refine (allArguments_adds h name' operands here).bind fun args u tidy adds => ?_
  let n : CallNode := { name := name', args }
  have born := born_addCall u.store n
  have self : (u.store.addCall n).2.call (u.store.addCall n).1 = n :=
    (Table.get_push n _).trans (if_pos rfl)
  refine ensures_liftStore (m := fun s => s.addCall n) fun c s led => ?_
  obtain rfl : (u.store.addCall n).2 = s := congrArg Prod.snd led
  refine ⟨tidy.restock ?_ born.grown.has, trivial⟩
  refine tidy.store.bare born (by nofun) (by nofun) (fun m hm => ?_) rfl
  rw [Store.holds, self] at hm
  exact alive_eq adds.use ▸ adds.atHand m hm

/-- The element for a value over elements at hand, if there is one. -/
theorem elementFor_tidy (h : b.Tidy) {x : Except SheetError Value}
    (gives : Gives (Value.Meets (b.store.AtHand b.Alive)) x) :
    Ensures (do
      let value ← ofExcept x
      elementFor value false) b Build.Tidy fun _ _ => True := by
  refine (ofExcept_gives h gives).bind fun v t _ both => ?_
  obtain ⟨rfl, meets⟩ := both
  exact (elementFor_produces h meets false).imp (fun _ stays => stays.tidy) fun _ _ _ _ => trivial

end BuildM

open BuildM StoreM in
/-- Making an element leaves a build tidy. -/
theorem Making.run_tidy {b : Build} (h : b.Tidy) {m : Making} (allowed : m.Allowed b) :
    Ensures m.run b Build.Tidy fun _ _ => True := by
  have made : ∀ {ι : Type} {x : StoreM ι} {f : ι → Element},
      (∀ a s, Leads x b.store a s → Tends b.Alive b.store s) →
      Ensures (do return f (← liftStore x)) b Build.Tidy fun _ _ => True :=
    fun makes => (liftStore_tidy h makes).bind fun _ _ tidy _ => .pure tidy trivial
  have supplied : ∀ {s : Store}, Supplies b.Alive b.store s → Tends b.Alive b.store s :=
    fun supplies => ⟨supplies.tidy, supplies.grown.has⟩
  have delivered : ∀ {s : Store} {e : Element}, Delivers b.Alive b.store s e →
      Tends b.Alive b.store s := fun delivers => ⟨delivers.tidy, delivers.grown.has⟩
  cases m with
  | cell value =>
      exact made fun c s led =>
        supplied (newCell_supplies h.store ⟨le_refl 1, le_refl 1⟩ (by rintro _ ⟨⟩) led).1
  | vector o =>
      exact made fun v s led =>
        supplied (newVector_supplies h.store rfl (by simp) (by simp) led).1
  | frame o => exact made fun f s led => delivered (newFrame_delivers h.store (by simp) led)
  | stack o => exact made fun k s led => supplied (newStack_supplies h.store rfl led)
  | expression text =>
      exact (newExpression_adds h text).bind fun _ _ tidy _ => .pure tidy trivial
  | call name operands =>
      exact (newCall_tidy h name operands allowed).bind fun _ _ tidy _ => .pure tidy trivial
  | copy e =>
      have used := allowed.imp fun _ both => both.2
      cases e with
      | cell c => exact made fun d s led => supplied (copyCell_supplies h.store (used _ rfl) led).1
      | vector v =>
          exact made fun w s led => supplied (copyVector_supplies h.store (used _ rfl) led).1
      | frame f => exact made fun g s led => delivered (copyFrame_delivers h.store (used _ rfl) led)
      | _ => exact .pure h trivial
  | combine op lhs rhs =>
      exact Ensures.get_bind (elementFor_tidy h (Value.binary_meets h.store allowed.1 allowed.2))
  | negate e => exact Ensures.get_bind (elementFor_tidy h (Value.unary_meets h.store allowed))
  | span first last =>
      refine Ensures.get_bind ?_
      split
      · refine made fun c s led => supplied (newFormulaCell_supplies h.store ?_ led).1
        exact Formula.meets_span (allowed.1 _ rfl) (allowed.2 _ rfl)
      · exact .throw h
      · exact .throw h
  | evaluate e hint reference =>
      have used := allowed.imp fun _ both => both.2
      cases e with
      | expression x =>
          exact (evalExpression_produces h (used _ rfl) hint reference).imp
            (fun _ stays => stays.tidy) fun _ _ _ _ => trivial
      | call c =>
          exact (evalCall_produces h (used _ rfl) hint).imp
            (fun _ stays => stays.tidy) fun _ _ _ _ => trivial
      | _ => exact .pure h trivial

/-! ## Laying out -/

/-- A phase of laying out. -/
inductive Phase where
  | prepareHeaders
  | insertHeaders
  | applySizes
  | wrapSpacing
  | explodeGaps
  | place (origin : Location)
  | cascade (outer : Inherited)

/-- Go through a phase at and below an element. -/
def Phase.run (root : Element) : Phase → BuildM Unit
  | .prepareHeaders => BuildM.changeStore fun s => s.prepareHeaders root
  | .insertHeaders => BuildM.liftStore (StoreM.insertHeaders root)
  | .applySizes => BuildM.changeStore fun s => s.applySizes root
  | .wrapSpacing => do BuildM.noteAll (← BuildM.liftStore (StoreM.wrapSpacing root))
  | .explodeGaps => BuildM.liftStore (StoreM.explodeGaps root)
  | .place origin => BuildM.changeStore fun s => s.place root origin
  | .cascade outer => BuildM.changeStore fun s => s.cascade root outer

/-- Whether a build is tidy and an element is at hand in it. -/
def Build.Offers (e : Element) (b : Build) : Prop :=
  b.Tidy ∧ e.Meets (b.store.AtHand b.Alive)

namespace BuildM

variable {b : Build} {root : Element}

theorem offers_restock {s : Store} (h : b.Offers root) (tends : Tends b.Alive b.store s) :
    Build.Offers root { b with store := s } :=
  ⟨h.1.restock tends.1 tends.2, h.2.imp fun n both => both.imp (tends.2 n) id⟩

theorem changeStore_offers {f : Store → Store} (dresses : ∀ s, Dresses s (f s)) :
    Upholds (Build.Offers root) (changeStore f) :=
  fun b h => offers_restock h
    ⟨h.1.store.dress (dresses b.store), fun n => ((dresses b.store).has n).2⟩

theorem liftStore_offers {α : Type} {x : StoreM α} (tends : ∀ {use s t}, s.Tidy use →
    root.Meets (s.AtHand use) → ∀ {a : α}, Leads x s a t → Tends use s t) :
    Upholds (Build.Offers root) (liftStore x) :=
  fun _ h => (ensures_liftStore (Q := fun _ _ => True) fun _ _ led =>
    ⟨offers_restock h (tends h.1.store h.2 led), trivial⟩).1

theorem noteAll_offers (notices : List Notice) : Upholds (Build.Offers root) (noteAll notices) :=
  .forM (fun _ _ h => ⟨h.1.later rfl h.1.store (fun _ => id) fun _ => .inl, h.2⟩) notices

/-- Laying out leaves a build tidy. -/
theorem layOut_offers (root : Element) (sheet : String) (outer : Inherited) :
    Upholds (Build.Offers root) (layOut root sheet outer) := by
  refine (changeStore_offers fun s => dresses_prepareHeaders s root).bind fun _ => ?_
  refine (liftStore_offers StoreM.insertHeaders_tidy).bind fun _ => ?_
  refine (changeStore_offers fun s => dresses_applySizes s root).bind fun _ => ?_
  refine (liftStore_offers StoreM.wrapSpacing_tidy).bind fun notices => ?_
  refine (noteAll_offers notices).bind fun _ => ?_
  refine (liftStore_offers StoreM.explodeGaps_tidy).bind fun _ => ?_
  refine (changeStore_offers fun s => dresses_place s root _).bind fun _ => ?_
  exact changeStore_offers fun s => dresses_cascade s root outer

end BuildM

open BuildM StoreM in
/-- Each phase leaves a build tidy. -/
theorem Phase.run_offers (p : Phase) (root : Element) :
    Upholds (Build.Offers root) (p.run root) := by
  cases p with
  | prepareHeaders => exact changeStore_offers fun s => dresses_prepareHeaders s root
  | insertHeaders => exact liftStore_offers insertHeaders_tidy
  | applySizes => exact changeStore_offers fun s => dresses_applySizes s root
  | wrapSpacing => exact (liftStore_offers wrapSpacing_tidy).bind noteAll_offers
  | explodeGaps => exact liftStore_offers explodeGaps_tidy
  | place origin => exact changeStore_offers fun s => dresses_place s root origin
  | cascade outer => exact changeStore_offers fun s => dresses_cascade s root outer

/-! ## All operations -/

/-- An operation on the elements of a build. -/
inductive Operation where
  | make (m : Making)
  | setId (e : Element) (id : String)
  | setHeader (e : Element) (header : String)
  /-- Set anything about elements but what they hold, their axes and their header cells. -/
  | dress (change : Store → Store)
  | push (container item : Element)
  | insert (container : Element) (position : Nat) (item : Element)
  /-- Try the keys of a producer, outside any pass. -/
  | attempt (container : Option Element) (e : Element)
  | pass (root : Element)
  | resolve (roots : List Element)
  | phase (p : Phase) (root : Element)
  | layOut (root : Element) (sheet : String) (outer : Inherited)
  /-- Hold some nodes from outside, and nothing else. -/
  | hold (nodes : List Node)
  /-- Forget some names. -/
  | forget (left : SymbolTable)

namespace Operation

/-- Do what an operation does. -/
def run : Operation → BuildM Unit
  | .make m => do
    let _ ← m.run
    return
  | .setId e id => BuildM.setId e id
  | .setHeader e header => BuildM.setHeader e header
  | .dress change => BuildM.changeStore change
  | .push container item => BuildM.push container item
  | .insert container position item => BuildM.insert container position item
  | .attempt container (.expression x) => do
    let _ ← BuildM.attemptExpression container x
    return
  | .attempt container (.call c) => do
    let _ ← BuildM.attemptCall container c
    return
  | .attempt _ _ => return
  | .pass root => do
    let _ ← BuildM.pass root
    return
  | .resolve roots => BuildM.resolve roots
  | .phase p root => p.run root
  | .layOut root sheet outer => BuildM.layOut root sheet outer
  | .hold nodes => modify fun b => { b with pins := nodes }.sweep
  | .forget left => modify fun b => { b with symbols := left }

/-- Whether an operation is given elements at hand only, and no stack is put into itself.  What a pass
starts with is held from outside. -/
def Allowed (b : Build) : Operation → Prop
  | .make m => m.Allowed b
  | .setId e _ | .setHeader e _ => e.Meets b.store.Has
  | .dress change => ∀ s, Dresses s (change s)
  | .push container item | .insert container _ item =>
    container.Meets b.Alive ∧ item.Meets (b.store.AtHand b.Alive) ∧
      ∀ k, container = .stack k → ¬Reach b.store item container
  | .attempt container _ => ∀ c ∈ container, c.Meets b.Alive
  | .pass root => root.Meets (· ∈ b.pins)
  | .resolve roots => ∀ root ∈ roots, root.Meets (· ∈ b.pins)
  | .phase _ root | .layOut root _ _ => root.Meets (b.store.AtHand b.Alive)
  | .hold nodes => ∀ n ∈ nodes, b.store.AtHand b.Alive n
  | .forget left => left.nodes ⊆ b.symbols.nodes

end Operation

namespace Build

variable {b : Build}

theorem Tidy.hold (h : b.Tidy) {nodes : List Node}
    (here : ∀ n ∈ nodes, b.store.AtHand b.Alive n) : { b with pins := nodes }.sweep.Tidy := by
  refine tidy_sweep h.store.toOwned h.store.toSound (fun n used => ?_) here h.names
  by_cases there : b.store.Has n
  · exact alive_of_alive_sweep (b := { b with pins := nodes }) there used
  · exact h.store.unborn n there

end Build

/-- Every operation leaves a build tidy, whether or not it succeeds. -/
theorem Operation.run_tidy {b : Build} (h : b.Tidy) {op : Operation} (allowed : op.Allowed b) :
    (op.run b : Except SheetError Unit × Build).2.Tidy := by
  cases op with
  | make m =>
      have made : Ensures (Operation.run (.make m)) b Build.Tidy fun _ _ => True :=
        (Making.run_tidy h allowed).bind fun _ _ tidy _ => .pure tidy trivial
      exact made.1
  | setId e id => exact h.decorate (BuildM.setId_decorates e id b (.refl e b)) allowed
  | setHeader e header =>
      exact h.decorate (BuildM.setHeader_decorates e header b (.refl e b)) allowed
  | dress change =>
      exact h.restock (h.store.dress (allowed b.store)) fun n => ((allowed b.store).has n).2
  | push container item =>
      obtain ⟨used, here, apart⟩ := allowed
      exact (BuildM.push_tidy h used here apart).1
  | insert container position item =>
      obtain ⟨used, here, apart⟩ := allowed
      exact (BuildM.insert_tidy h used position here apart).1
  | attempt container e =>
      cases e with
      | expression x => exact (h.bindKeys allowed x).1
      | call c => exact (h.bindArguments allowed (b.store.call c).args).1
      | _ => exact h
  | pass root => exact BuildM.state_map (BuildM.pass root) _ ▸ BuildM.pass_tidy h allowed
  | resolve roots => exact BuildM.resolve_tidy h allowed
  | phase p root => exact (p.run_offers root b ⟨h, allowed⟩).1
  | layOut root sheet outer => exact (BuildM.layOut_offers root sheet outer b ⟨h, allowed⟩).1
  | hold nodes => exact h.hold allowed
  | forget left => exact h.later rfl h.store (fun _ => id) fun n hn => .inl (allowed hn)

/-! ## All builds -/

/-- The builds that operations lead to, each of which is allowed where its turn comes. -/
inductive Reached : Build → Prop
  | start (config : Config) : Reached { config }
  | step {b : Build} (before : Reached b) (op : Operation) (allowed : op.Allowed b) :
      Reached (op.run b : Except SheetError Unit × Build).2

theorem Store.wellFormed_blank : ({} : Store).WellFormed :=
  wellFormed_of_falling (fun _ => 0) (by decide) (by decide)

theorem Build.tidy_start (config : Config) : Build.Tidy { config } where
  store :=
    { wf := wellFormed_blank
      unborn := fun n _ => by cases n <;> rfl
      holds := fun n _ m hm => by cases n <;> cases hm
      takes := fun e _ child below => by cases e <;> cases below
      headed := fun v _ inserted => by cases inserted }
  pins n hn := by cases hn
  names n hn := by cases hn

theorem Reached.tidy {b : Build} (h : Reached b) : b.Tidy := by
  induction h with
  | start config => exact Build.tidy_start config
  | step _ op allowed ih => exact Operation.run_tidy ih allowed

/-- Whether the containers in use hold what they may hold, header cells first. -/
structure Build.WellShaped (b : Build) : Prop where
  inVector : ∀ v, b.Alive (.vector v) → ∀ child ∈ b.store.children (.vector v),
    (∃ c, child = .cell c) ∨ (∃ g, child = .gap g) ∨ isProducer child = true
  inFrame : ∀ f, b.Alive (.frame f) → ∀ child ∈ b.store.children (.frame f),
    (∃ v, child = .vector v ∧
      (b.store.vector v).orientation = (b.store.frame f).orientation.cross) ∨
      (∃ g, child = .gap g) ∨ isProducer child = true
  inStack : ∀ k, b.Alive (.stack k) → ∀ c, .cell c ∉ b.store.children (.stack k)
  header : ∀ v, b.Alive (.vector v) → (b.store.vector v).headerInserted = true →
    ∃ c rest, b.store.children (.vector v) = .cell c :: rest ∧ (b.store.cell c).isHeader = true
  /-- Nothing is lost where the header cell is taken off the length. -/
  length : ∀ v, b.Alive (.vector v) →
    b.store.vectorLength v + (b.store.vector v).headerInserted.toNat =
      (b.store.vector v).children.length

theorem Build.Tidy.wellShaped {b : Build} (h : b.Tidy) : b.WellShaped where
  inVector v used child below := by
    have leaf : child.isContainer = false :=
      h.store.takes (.vector v) (by rintro _ ⟨⟩; exact used) child below
    cases child with
    | cell c => exact .inl ⟨c, rfl⟩
    | gap g => exact .inr (.inl ⟨g, rfl⟩)
    | expression x => exact .inr (.inr rfl)
    | call c => exact .inr (.inr rfl)
    | _ => cases leaf
  inFrame f used child below := by
    have takes := h.store.takes (.frame f) (by rintro _ ⟨⟩; exact used) child below
    cases child with
    | vector v => exact .inl ⟨v, rfl, Option.some.inj takes⟩
    | gap g => exact .inr (.inl ⟨g, rfl⟩)
    | expression x => exact .inr (.inr rfl)
    | call c => exact .inr (.inr rfl)
    | cell c => cases takes.2
    | _ => cases takes.1
  inStack k used c below := by
    have takes : asCell? (.cell c) = none :=
      h.store.takes (.stack k) (by rintro _ ⟨⟩; exact used) _ below
    cases takes
  header v used inserted := by
    obtain ⟨c, first, header⟩ := h.store.headed v used inserted
    obtain ⟨rest, split⟩ := List.head?_eq_some_iff.1 first
    exact ⟨c, rest, split, header⟩
  length v used := Nat.sub_add_cancel (h.store.length_headerInserted used)

/-- A column whose header is inserted, with a call behind it. -/
def headedSum : Build :=
  [.make (.vector .vertical), .setHeader (.vector ⟨0⟩) "Rent", .hold [.vector ⟨0⟩],
    .phase .insertHeaders (.vector ⟨0⟩), .make (.call "SUM" [.literal (.text "12")]),
    .insert (.vector ⟨0⟩) 0 (.call ⟨0⟩)].foldl
    (fun b (op : Operation) => (op.run b : Except SheetError Unit × Build).2) {}

theorem reached_headedSum : Reached headedSum := by
  have vector := (Reached.start {}).step (.make (.vector .vertical)) trivial
  have named := vector.step (.setHeader (.vector ⟨0⟩) "Rent")
    (by rintro _ ⟨⟩; exact Nat.zero_lt_one)
  have held := named.step (.hold [.vector ⟨0⟩]) (by
    intro n hn
    obtain rfl := List.mem_singleton.1 hn
    exact ⟨(by show 0 < _; decide +kernel), rfl⟩)
  have headed := held.step (.phase .insertHeaders (.vector ⟨0⟩)) (by
    rintro _ ⟨⟩
    exact ⟨(by show 0 < _; decide +kernel), (by show _ = true; decide +kernel)⟩)
  have made := headed.step (.make (.call "SUM" [.literal (.text "12")])) (by nofun)
  exact made.step (.insert (.vector ⟨0⟩) 0 (.call ⟨0⟩)) ⟨
    (by rintro _ ⟨⟩; show _ = true; decide +kernel),
    (by
      rintro _ ⟨⟩
      exact ⟨(by show 0 < _; decide +kernel), (by show _ = true; decide +kernel)⟩), nofun⟩

end Spreadsheet
