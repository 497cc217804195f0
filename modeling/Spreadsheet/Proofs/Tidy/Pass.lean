import Spreadsheet.Proofs.Tidy.Produce

/-!
# Passes leave builds tidy

What a container makes of a produced element may stand in it: vectors are turned across a frame, a cell
becomes a vector.  A frame whose vectors another frame has taken holds vectors that may lie along its
axis from then on; nothing holds that frame, so that it goes out of use before anything sees it.
-/

namespace Spreadsheet

open Store

namespace Build

variable {b m : Build} {container produced : Element} {spliced : List Element}

/-! ## Letting nodes go out of use -/

theorem alive_iff {n : Node} : b.Alive n ↔ b.unused.contains n = false :=
  iff_of_eq (Bool.not_eq_true' _)

/-- What is in use holds nodes in use, also once nodes have gone out of use that nothing holds. -/
theorem owned_sweep (owned : b.store.Owned b.Alive) : b.store.Owned b.sweep.Alive where
  wf := owned.wf
  unborn n outside := by
    by_contra out
    rcases has_of_not_alive_sweep (Bool.eq_false_iff.2 out) with before | there
    · exact Bool.eq_false_iff.1 before (owned.unborn n outside)
    · exact outside there
  holds n used m hm := by
    have marked : ∀ n, b.unused.contains n = true → b.store.Has n := by
      intro n marked
      by_contra outside
      rw [alive_iff.1 (owned.unborn n outside)] at marked
      cases marked
    obtain ⟨there, alive⟩ := releaseWithin_closed (b.store.nodes.length + 1) marked
      (fun n used m hm => (owned.holds n (alive_iff.2 used) m hm).imp id alive_iff.1)
      n (alive_iff (b := b.sweep).1 used) m hm
    exact ⟨there, alive_iff (b := b.sweep).2 alive⟩

/-- A build is tidy, once nodes have gone out of use that nothing holds, if what is left in use holds
what it may hold. -/
theorem tidy_sweep {left : Node → Prop} (owned : b.store.Owned b.Alive) (sound : b.store.Sound left)
    (still : ∀ n, b.sweep.Alive n → left n) (pins : ∀ n ∈ b.pins, b.store.AtHand b.Alive n)
    (names : ∀ n ∈ b.symbols.nodes, b.store.Has n) : b.sweep.Tidy where
  store := ⟨owned_sweep owned, sound.anti still⟩
  pins n hn := ⟨(pins n hn).1, alive_sweep (P := (· ∈ b.pins)) (fun _ => .inl)
    (fun n hn => (pins n hn).2) hn⟩
  names := names

/-! ## Fitting -/

/-- What remains in use where a container takes the vectors of a frame: all but the frame. -/
def Remains (b : Build) (container produced : Element) (n : Node) : Prop :=
  b.Alive n ∧ ∀ f g, container = .frame f → produced = .frame g → n ≠ .frame g

/-- What a build is like in which a produced element has been made to fit a container. -/
structure Fitted (b : Build) (container produced : Element) (spliced : List Element) (m : Build) :
    Prop where
  use : m.use = b.use
  names : ∀ n ∈ m.symbols.nodes, m.store.Has n
  has : ∀ n, b.store.Has n → m.store.Has n
  owned : m.store.Owned b.Alive
  sound : m.store.Sound (b.Remains container produced)
  atHand : ∀ z ∈ spliced, z.Meets (m.store.AtHand b.Alive)
  takes : ∀ z ∈ spliced, m.store.Takes container z
  /-- A frame whose vectors are taken is held by no other nodes than before. -/
  holds : ∀ f g, container = .frame f → produced = .frame g →
    ∀ n, m.store.holds n = b.store.holds n

theorem Fitted.whole (h : b.Tidy) (atHand : ∀ z ∈ spliced, z.Meets (b.store.AtHand b.Alive))
    (takes : ∀ z ∈ spliced, b.store.Takes container z) : Fitted b container produced spliced b where
  use := rfl
  names := h.names
  has _ := id
  owned := h.store.toOwned
  sound := h.store.toSound.anti fun _ remains => remains.1
  atHand := atHand
  takes := takes
  holds _ _ _ _ _ := rfl

/-- Turning vectors across a frame, when no frame but one that is left holds them. -/
theorem Fitted.turned (h : b.Tidy) {f : FrameId} {vectors : List VectorId}
    (here : ∀ v ∈ vectors, b.store.AtHand b.Alive (.vector v))
    (free : ∀ v ∈ vectors, ∀ g, b.Alive (.frame g) → .frame g ≠ produced →
      .vector v ∉ b.store.children (.frame g)) :
    Fitted b (.frame f) produced (vectors.map .vector)
      { b with store := b.store.turned (b.store.frame f).orientation.cross vectors } := by
  have inside : ∀ v ∈ vectors, b.store.Has (.vector v) := fun v hv => (here v hv).1
  have has := fun n => (has_turned b.store (b.store.frame f).orientation.cross vectors n).2
  refine ⟨rfl, fun n hn => has n (h.names n hn), has, h.store.toOwned.turned inside, ?_, ?_, ?_,
    fun _ _ _ _ => holds_turned inside⟩
  · apply (h.store.toSound.anti fun _ remains => remains.1).turned inside
    intro v hv g remains
    exact free v hv g remains.1 fun same => remains.2 f g rfl same.symm rfl
  · intro z hz n hn
    obtain ⟨v, hv, rfl⟩ := List.mem_map.1 hz
    obtain rfl := Option.some.inj hn
    exact (here v hv).imp (has _) id
  · intro z hz
    obtain ⟨v, hv, rfl⟩ := List.mem_map.1 hz
    have frame : (b.store.turned (b.store.frame f).orientation.cross vectors).frame f =
        b.store.frame f := left_turned (x := .frame f) (by nofun)
    show some ((b.store.turned _ vectors).vector v).orientation =
      some ((b.store.turned _ vectors).frame f).orientation.cross
    rw [vector_turned inside hv, frame]

end Build

namespace BuildM

open Build

variable {b m : Build} {container child produced : Element} {before rest spliced : List Element}

/-- What a container makes of an element at hand.  No other frame may hold the vectors it turns. -/
theorem fitted_of_runs (h : b.Tidy) (here : produced.Meets (b.store.AtHand b.Alive))
    (holds : container.isContainer = true)
    (free : ∀ v, Element.vector v = produced ∨ Element.vector v ∈ b.store.children produced →
      ∀ g, b.Alive (.frame g) → .frame g ≠ produced → .vector v ∉ b.store.children (.frame g))
    (run : Runs (fit container produced) b spliced m) :
    Fitted b container produced spliced m := by
  have used : produced.Meets b.Alive := here.imp fun _ both => both.2
  have refused : ¬Runs (refuse container produced : BuildM (List Element)) b spliced m := by
    intro run
    obtain ⟨_, _, -, run⟩ := runs_bind.1 run
    exact not_runs_throw run
  have lone : ∀ {c : CellId} {o : Orientation}, produced = .cell c →
      b.store.orientation? container = some o → (∀ v, container ≠ .vector v) →
      Runs (do return [← promoted c o]) b spliced m → Fitted b container produced spliced m := by
    rintro c o rfl axis other run
    obtain ⟨e, t, made, run⟩ := runs_bind.1 run
    obtain ⟨rfl, rfl⟩ := runs_pure.1 run
    obtain ⟨tidy, use, grown, joins⟩ := (promoted_joins h (here _ rfl) axis other).of_runs made
    have store : t.store.Tidy b.Alive := alive_eq use ▸ tidy.store
    exact ⟨use, tidy.names, grown.has, store.toOwned, store.toSound.anti fun _ remains => remains.1,
      fun z hz => List.mem_singleton.1 hz ▸ joins.atHand,
      fun z hz => List.mem_singleton.1 hz ▸ joins.takes, fun _ _ _ same => by cases same⟩
  have whole : b.store.Takes container produced → spliced = [produced] → m = b →
      Fitted b container produced spliced m := by
    rintro takes rfl rfl
    exact .whole h (fun z hz => List.mem_singleton.1 hz ▸ here)
      fun z hz => List.mem_singleton.1 hz ▸ takes
  obtain ⟨_, _, got, run⟩ := runs_bind.1 run
  obtain ⟨rfl, rfl⟩ := runs_get.1 got
  split at run
  · obtain ⟨rfl, rfl⟩ := runs_pure.1 run
    exact whole rfl rfl rfl
  · obtain ⟨rfl, rfl⟩ := runs_pure.1 run
    rename_i v _
    have below : ∀ z ∈ b.store.content v, z ∈ b.store.children (.vector v) :=
      fun z => List.mem_of_mem_drop
    exact .whole h (fun z hz => h.store.child used (below z hz))
      fun z hz => h.store.takes (.vector v) used z (below z hz)
  · exact absurd run refused
  · exact lone rfl rfl (by nofun) run
  · obtain ⟨rfl, rfl⟩ := runs_turnVectors.1 run
    refine .turned h (fun v hv => ?_) fun v hv => free v ?_
    · obtain rfl := List.mem_singleton.1 hv
      exact here _ rfl
    · obtain rfl := List.mem_singleton.1 hv
      exact .inl rfl
  · obtain ⟨rfl, rfl⟩ := runs_turnVectors.1 run
    rename_i f g
    refine .turned h (fun v hv => (h.store.vectors (used _ rfl) v hv).1) fun v hv => free v ?_
    exact .inr (mem_frameVectors.1 hv)
  · exact absurd run refused
  · exact lone rfl rfl (by nofun) run
  · obtain ⟨rfl, rfl⟩ := runs_pure.1 run
    rename_i noVector noFrame _ _ _ _ _ noCell _
    refine whole ?_ rfl rfl
    cases container with
    | vector v => exact (noVector v rfl).elim
    | frame f => exact (noFrame f rfl).elim
    | stack k =>
        cases produced with
        | cell c => exact (noCell k c rfl rfl).elim
        | _ => rfl
    | _ => cases holds

/-- Where a container does not take an element, nothing has changed. -/
theorem fit_error {e : SheetError}
    (failed : (fit container produced b : Except SheetError (List Element) × Build) = (.error e, m)) :
    m = b := by
  have refused : (refuse container produced b : Except SheetError (List Element) × Build) =
      (.error e, m) → m = b := fun failed => (Prod.mk.inj failed).2.symm
  cases container <;> cases produced <;>
    first | exact refused failed | cases (Prod.mk.inj failed).1

end BuildM

/-! ## Replacing -/

namespace Build

variable {b m t : Build} {container child produced : Element} {before rest spliced : List Element}

/-- Whether an element has been made in a tidy build, new down to its cells. -/
structure Made (b m : Build) (e : Element) : Prop extends Stays b m, Produces b m e where
  spares : Spares b.store m.store
  new : ¬b.store.InStore e

theorem Made.atHand (h : Made b m produced) (tidy : b.Tidy) :
    produced.Meets (m.store.AtHand m.Alive) := by
  intro n hn
  refine ⟨h.there n hn, ?_⟩
  rw [alive_eq h.use]
  refine tidy.store.unborn n fun old => h.new (inStore_of_meets fun k hk => ?_)
  rwa [Option.mem_unique hk hn]

/-- No other frame holds a produced vector, or one of a produced frame. -/
theorem Made.free (h : Made b m produced) (tidy : b.Tidy) {v : VectorId}
    (vector : Element.vector v = produced ∨ Element.vector v ∈ m.store.children produced)
    {g : FrameId} (other : .frame g ≠ produced) : .vector v ∉ m.store.children (.frame g) := by
  intro below
  rcases h.frames g (inStore_of_child below) with old | same
  · have old : b.store.InStore (.frame g) := old
    rw [h.spares.children old] at below
    have inside := tidy.store.wf.closed _ _ below
    rcases vector with rfl | vector
    · exact h.new inside
    · exact h.spares.fresh produced _ h.new vector inside
  · exact other same.symm

/-- What a container makes of the result may be put in the place of a producer. -/
theorem Fitted.suits (fitted : Fitted m container produced spliced t) (made : Made b m produced)
    (used : container.Meets (b.store.AtHand b.Alive)) (spares : Spares b.store t.store)
    (split : b.store.children container = before ++ child :: rest)
    (producer : isProducer child = true) :
    t.store.Suits m.Alive container (before ++ spliced ++ rest) := by
  have inside : b.store.InStore container := inStore_of_meets (used.imp fun _ both => both.1)
  have remains : container.Meets (m.Remains container produced) := by
    intro n hn
    refine ⟨alive_eq made.use ▸ (used n hn).2, ?_⟩
    rintro f g rfl same rfl
    obtain rfl := Node.frame.inj (Option.some.inj hn)
    exact made.new (same ▸ inside)
  have now : t.store.Suits m.Alive container (before ++ [child] ++ rest) := by
    rw [List.append_assoc, List.singleton_append, ← split, ← spares.children inside]
    exact fitted.owned.suits fitted.sound (remains.imp fun _ remains => remains.1) remains
  refine now.splice fitted.atHand fitted.takes fun v same inserted none => ?_
  obtain ⟨c, first, -⟩ := now.headed v same inserted
  rw [none] at first
  obtain rfl : child = .cell c := Option.some.inj first
  cases producer

/-- Once new children are in place, all is in use that remains: a frame whose vectors were taken has
gone out of use. -/
theorem Fitted.remains (fitted : Fitted m container produced spliced t) (made : Made b m produced)
    (tidy : b.Tidy) (split : b.store.children container = before ++ child :: rest) {n : Node}
    (used : (Build.sweep { t with
      store := t.store.setChildren container (before ++ spliced ++ rest) }).Alive n) :
    m.Remains container produced n := by
  let placed : Build := { t with
    store := t.store.setChildren container (before ++ spliced ++ rest) }
  have alive : placed.Alive = m.Alive := alive_eq fitted.use
  refine ⟨?_, ?_⟩
  · by_cases there : placed.store.Has n
    · have before : placed.Alive n := alive_of_alive_sweep there used
      rwa [alive] at before
    · exact fitted.owned.unborn n fun old => there ((has_setChildren _ _ _ n).2 old)
  · rintro f g rfl rfl rfl
    have new : ¬b.store.Has (.frame g) := made.new
    have out : placed.sweep.alive (.frame g) = false := by
      refine not_alive_sweep ?_ ?_ fun k hk held => ?_
      · exact (has_setChildren _ _ _ _).2 (fitted.has _ (made.there _ rfl))
      · intro pinned
        have pins : t.pins = b.pins := (Prod.mk.inj (fitted.use.trans made.use)).2
        exact new (tidy.pins _ (pins ▸ pinned)).1
      · rcases holds_setChildren_cases t.store (.frame f) (before ++ spliced ++ rest) k with
          same | same
        · rw [same, fitted.holds f g rfl rfl] at held
          have hk : placed.Alive k := hk
          rw [alive, alive_eq made.use] at hk
          exact made.loose g rfl k hk held
        · rw [same] at held
          obtain ⟨z, hz, node⟩ := List.mem_filterMap.1 held
          obtain rfl : Element.frame g = z := element_of_node? node
          by_cases here : .frame g ∈ spliced
          · cases (fitted.takes _ here).1
          · have old : .frame g ∈ b.store.children (.frame f) := by
              rw [split]
              simp at hz ⊢
              tauto
            exact made.new (tidy.store.wf.closed _ _ old)
    rw [Alive, out] at used
    cases used

/-- Whatever is at or below an element that is held from outside is at hand. -/
theorem Tidy.under (h : b.Tidy) {roots : List Element}
    (pinned : ∀ root ∈ roots, root.Meets (· ∈ b.pins)) (under : b.store.Under roots container) :
    container.Meets (b.store.AtHand b.Alive) := by
  obtain ⟨root, hroot, reach⟩ := under
  induction reach with
  | root => exact (pinned root hroot).imp h.pins
  | child _ below ih => exact h.store.child (ih.imp fun _ both => both.2) below

end Build

namespace BuildM

open Build

variable {b m : Build} {container child produced : Element} {before rest spliced : List Element}

/-- Putting what a container makes of the result in the place of a producer. -/
theorem put_tidy (h : b.Tidy) (used : container.Meets (b.store.AtHand b.Alive))
    (split : b.store.children container = before ++ child :: rest) (ready : b.ready child = true) :
    (put container before child rest b :
      Except SheetError (Element × List Element) × Build).2.Tidy := by
  have wf := ((puts_put container before rest ready h.store.wf).evolves h.store.wf split).wf
  have here : child ∈ b.store.children container := by simp [split]
  have inUse : child.Meets b.Alive :=
    (h.store.child (used.imp fun _ both => both.2) here).imp fun _ both => both.2
  have evaluates := evaluate_produces container h inUse ready
  have sparing := evaluate_sparing container ready
  rw [put, bind_apply] at wf ⊢
  rcases run : (evaluate container child b : Except SheetError Element × Build) with ⟨e | x, m⟩
  · rw [Ensures, run] at evaluates
    exact evaluates.1.tidy
  · obtain ⟨stays, produces⟩ := evaluates.of_runs run
    obtain ⟨spares, new⟩ := sparing.of_runs run
    have made : Made b m x := ⟨stays, produces, spares, new⟩
    rw [run] at wf
    dsimp only at wf ⊢
    rw [bind_apply] at wf ⊢
    rcases fits : (fit container x m : Except SheetError (List Element) × Build) with ⟨e | l, t⟩
    · rw [fit_error fits]
      exact stays.tidy
    · rw [fits] at wf
      have fitted := fitted_of_runs stays.tidy (made.atHand h) (isContainer_of_child here)
        (fun v vector g _ other => made.free h vector other) fits
      have spared := ((fit_sparing new spares).of_runs fits).1
      have suits := fitted.suits made used spared split (isProducer_of_ready ready)
      have has := fun n => (has_setChildren t.store container (before ++ l ++ rest) n).2
      have alive : Alive { t with store := t.store.setChildren container (before ++ l ++ rest) } =
        m.Alive := alive_eq fitted.use
      refine tidy_sweep ?_ (fitted.sound.setChildren suits)
        (fun n => fitted.remains made h split) (fun n pinned => ?_) fun n hn => ?_
      · rw [alive]
        exact fitted.owned.setChildren suits wf
      · rw [alive]
        have pins : t.pins = m.pins := (Prod.mk.inj fitted.use).2
        exact (stays.tidy.pins n (pins ▸ pinned)).imp (fun old => has n (fitted.has n old)) id
      · exact has n (fitted.names n hn)

/-! ## Resolving -/

theorem evaluate_lasting {τ : Type} {part : Build → τ} (lasting : Lasting part)
    (container child : Element) : Keeps part (evaluate container child) := by
  cases child with
  | expression e => exact Keeps.get.bind fun _ => produced_quiet lasting.nameless lasting.quiet _ _ _
  | call c => exact Keeps.get.bind fun _ => produced_quiet lasting.nameless lasting.quiet _ _ _
  | _ => exact .pure _

theorem put_lasting {τ : Type} {part : Build → τ} (lasting : Lasting part) (container : Element)
    (before : List Element) (child : Element) (rest : List Element) :
    Keeps part (put container before child rest) := by
  refine (evaluate_lasting lasting container child).bind fun produced => ?_
  refine (fit_quiet lasting.quiet container produced).bind fun _ => ?_
  refine (lasting.quiet.changeStore fun s => traces_setChildren s _ _).bind fun _ => ?_
  exact (Keeps.modify (f := Build.sweep) fun b => lasting.unswept b _).bind fun _ => .pure _

theorem lasting_pins : Lasting Build.pins :=
  ⟨fun _ _ _ => rfl, fun _ _ => rfl, fun _ _ => rfl⟩

/-- The law of tidy builds that hold the roots from outside. -/
theorem tidy_law {roots : List Element} {pins : List Node}
    (pinned : ∀ root ∈ roots, root.Meets (· ∈ pins)) :
    Law roots (fun b => b.Tidy ∧ b.pins = pins) (fun _ _ => True) fun _ => True where
  refl _ := trivial
  trans _ _ := trivial
  wf h := h.1.store.wf
  binds := by
    rintro b container child e key ⟨h, rfl⟩ under - - -
    have used := (h.under pinned under).imp fun _ both => both.2
    exact ⟨⟨h.bindKey (fun c hc => Option.some.inj hc ▸ used) e key,
      (Prod.mk.inj (use_bindKey b (some container) e key)).2⟩, trivial⟩
  evaluates := by
    rintro b container child ⟨h, rfl⟩ under here ready
    have used := h.store.child ((h.under pinned under).imp fun _ both => both.2) here
    have stays := (evaluate_produces container h
      (used.imp fun _ both => both.2) ready).1
    exact ⟨⟨stays.tidy, (Prod.mk.inj stays.use).2⟩, trivial⟩
  puts := by
    rintro b container before child rest ⟨h, rfl⟩ under split ready
    exact ⟨⟨put_tidy h (h.under pinned under) split ready,
      put_lasting lasting_pins container before child rest b⟩, trivial, fun _ _ => trivial⟩

variable {roots : List Element}

/-- A pass over an element that is held from outside leaves a build tidy. -/
theorem pass_tidy (h : b.Tidy) (pinned : container.Meets (· ∈ b.pins)) :
    (pass container b : Except SheetError Bool × Build).2.Tidy := by
  have pinned : ∀ root ∈ [container], root.Meets (· ∈ b.pins) := by simpa using pinned
  have under : b.store.Under [container] container := ⟨container, by simp, .root⟩
  exact ((tidy_law pinned).withinStates b.store.depthBound ⟨h, rfl⟩ under).held.1

/-- Resolving leaves a build tidy, whether or not it succeeds. -/
theorem resolve_tidy (h : b.Tidy) (pinned : ∀ root ∈ roots, root.Meets (· ∈ b.pins)) :
    (resolve roots b : Except SheetError Unit × Build).2.Tidy :=
  ((tidy_law pinned).history ⟨h, rfl⟩).held.1

end BuildM

end Spreadsheet
