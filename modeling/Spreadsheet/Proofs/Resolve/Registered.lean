import Spreadsheet.Proofs.Resolve.Bound
import Spreadsheet.Proofs.Resolve.Hits
import Spreadsheet.Proofs.Resolve.Intact

/-!
# The names of producers

The symbol table holds an id or a header with the global marker cut off, and the producer that it
stands for holds it in full.  Resolving registers what producers make and never a producer, so it
adds nothing to the names under which producers are found; and a name that finds a producer is either
one that the producer declares, or one that it declares with the global marker.
-/

namespace Spreadsheet

open Store
open Template (Key)

/-! ## The names that a producer declares -/

theorem globalName?_eq_some {key name : String} :
    globalName? key = some name ↔ key.toList = globalMarker ++ name.toList := by
  unfold globalName?
  split
  · rename_i marked
    obtain ⟨rest, split⟩ := List.isPrefixOf_iff_prefix.1 marked
    rw [← split, List.drop_left, Option.some_inj, List.append_cancel_left_eq,
      ← String.toList_inj, String.toList_ofList]
  · rename_i unmarked
    simp only [reduceCtorEq, false_iff]
    exact fun split => unmarked (List.isPrefixOf_iff_prefix.2 ⟨_, split.symm⟩)

/-- The name behind the global marker determines the key. -/
theorem eq_of_globalName? {key other name : String} (h : globalName? key = some name)
    (h' : globalName? other = some name) : key = other :=
  String.toList_inj.1 ((globalName?_eq_some.1 h).trans (globalName?_eq_some.1 h').symm)

namespace Shelf

variable {key other name : String} {shelf : Shelf}

/-- A key that is looked for where another one was registered is that key, or lacks its marker. -/
theorem eq_or_unmarked_of_nameOf? (sought : shelf.nameOf? key = some name)
    (registered : ofId other = (shelf, name) ∨ ofHeader other = (shelf, name)) :
    key = other ∨ globalName? key = none ∧ globalName? other = some key := by
  unfold ofId ofHeader at registered
  unfold nameOf? at sought
  cases marked : globalName? key <;> cases marked' : globalName? other <;>
    simp only [marked, marked', Option.some_inj, Prod.mk.injEq, reduceCtorEq, ite_eq_iff, and_false,
      false_or] at sought registered
  case none.none =>
    left
    rcases registered with ⟨-, rfl⟩ | ⟨-, rfl⟩ <;> exact sought
  case none.some =>
    right
    subst sought
    rcases registered with ⟨-, rfl⟩ | ⟨-, rfl⟩ <;> exact ⟨rfl, rfl⟩
  case some.none =>
    rcases registered with ⟨rfl, -⟩ | ⟨rfl, -⟩ <;> exact absurd rfl sought.1
  case some.some =>
    obtain ⟨-, rfl⟩ := sought
    left
    rcases registered with ⟨-, rfl⟩ | ⟨-, rfl⟩ <;> exact eq_of_globalName? marked marked'

end Shelf

namespace Store

variable {s t : Store} {e : Element} {name : String}

theorem inStore_of_isProducer (producer : isProducer e = true) : s.InStore e := by
  cases e <;> trivial

theorem mem_producedNames :
    name ∈ s.producedNames e ↔ s.id? e = some name ∨ s.header? e = some name := by
  simp [producedNames]

theorem Left.producedNames (h : Left s t e) : t.producedNames e = s.producedNames e := by
  cases e with
  | gap g => rfl
  | _ => simp only [Store.producedNames, id?, header?, show _ = _ from h]

/-- Whether a producer declares a name with the global marker that has none itself. -/
def DeclaresMarked (s : Store) (e : Element) (name : String) : Prop :=
  globalName? name = none ∧ ∃ key ∈ s.producedNames e, globalName? key = some name

end Store

namespace Build

variable {b t u : Build} {e q : Element} {container : Option Element} {name : String}

/-- Whether every entry of the symbol table for a producer comes from its id or its header. -/
def Declares (b : Build) : Prop :=
  ∀ shelf name node, (name, some node) ∈ b.symbols.entries shelf →
    isProducer node.element = true →
      ∃ key ∈ b.store.producedNames node.element,
        Shelf.ofId key = (shelf, name) ∨ Shelf.ofHeader key = (shelf, name)

/-- A name that finds a producer is declared by it, as it is or with the global marker. -/
theorem Declares.of_find? (h : b.Declares) (found : b.find? container (.name name) = some q)
    (producer : isProducer q = true) :
    name ∈ b.store.producedNames q ∨ b.store.DeclaresMarked q name := by
  rw [find?_name] at found
  obtain ⟨place, -, hit⟩ := List.exists_of_findSome?_eq_some found
  cases place with
  | childId =>
      obtain ⟨c, -, named⟩ := Option.bind_eq_some_iff.1 hit
      exact .inl (mem_producedNames.2 (.inl (by simpa using List.find?_some named)))
  | childHeader =>
      obtain ⟨c, -, named⟩ := Option.bind_eq_some_iff.1 hit
      exact .inl (mem_producedNames.2 (.inr (by simpa using List.find?_some named)))
  | shelf shelf =>
      obtain ⟨node, here, rfl⟩ := Option.map_eq_some_iff.1 hit
      obtain ⟨under, sought, entry⟩ := Option.bind_eq_some_iff.1 here
      have entry := (Option.filter_eq_some_iff.1 entry).1
      have registered := Entries.mem_of_lookup (Option.join_eq_some_iff.1 entry)
      obtain ⟨key, declared, place⟩ := h shelf under node registered producer
      rcases Shelf.eq_or_unmarked_of_nameOf? sought place with rfl | ⟨unmarked, marked⟩
      · exact .inl declared
      · exact .inr ⟨unmarked, key, declared, marked⟩

/-! ## Nothing is added to the names of producers -/

/-- Whether the names under which producers are registered are names under which they were
registered in an earlier build. -/
def OldNames (b t : Build) : Prop :=
  ∀ shelf name node, (name, some node) ∈ t.symbols.entries shelf →
    isProducer node.element = true → (name, some node) ∈ b.symbols.entries shelf

theorem OldNames.refl (b : Build) : b.OldNames b :=
  fun _ _ _ entry _ => entry

theorem OldNames.of_symbols (h : b.OldNames t) (same : u.symbols = t.symbols) : b.OldNames u := by
  intro shelf name node entry
  rw [same] at entry
  exact h shelf name node entry

theorem Declares.later (h : b.Declares) (old : b.OldNames t)
    (left : ∀ e, isProducer e = true → Left b.store t.store e) : t.Declares := by
  intro shelf name node entry producer
  rw [(left node.element producer).producedNames]
  exact h shelf name node (old shelf name node entry producer) producer

theorem Declares.bind (h : b.Declares) (binds : Binds b.store t.store)
    (same : t.symbols = b.symbols) : t.Declares := by
  intro shelf name node entry producer
  rw [same] at entry
  simp only [producedNames, binds.id, binds.header]
  exact h shelf name node entry producer

/-- Registering an element that is no producer adds no name to a producer. -/
theorem OldNames.after (h : b.OldNames t) (leaf : isProducer e = false) {a : Action} {key : String}
    (registers : a = .registerId key e ∨ a = .registerHeader key e) : b.OldNames (t.after a) := by
  intro shelf name node entry producer
  rcases mem_entries_after.1 entry with ⟨x, added, known⟩ | ⟨before, -⟩
  · obtain rfl : e = x := by
      rcases registers with rfl | rfl <;>
        simp only [Action.registered?, Option.ite_none_right_eq_some, Option.some_inj,
          Prod.mk.injEq] at added <;> exact added.2.2
    rw [element_of_node? known, leaf] at producer
    cases producer
  · exact h shelf name node before producer

end Build

namespace BuildM

open Build

variable {b b₀ : Build} {e container child : Element} {before rest : List Element}

section

variable (leaf : isProducer e = false)

include leaf

theorem registerId_oldNames (key : String) : Upholds b₀.OldNames (registerId key e) :=
  fun _ h => h.after (a := .registerId key e) leaf (.inl rfl)

theorem registerHeader_oldNames (key : String) : Upholds b₀.OldNames (registerHeader key e) :=
  fun _ h => h.after (a := .registerHeader key e) leaf (.inr rfl)

omit leaf in
theorem changeStore_oldNames (f : Store → Store) : Upholds b₀.OldNames (changeStore f) :=
  fun _ h => h.of_symbols rfl

theorem applyDeclared_oldNames (d : Declared) : Upholds b₀.OldNames (applyDeclared d e) :=
  applyDeclared_upholds
    (fun id => (registerId_oldNames leaf id).bind fun _ => changeStore_oldNames _)
    (registerId_oldNames leaf)
    (fun header => (registerHeader_oldNames leaf header).bind fun _ => changeStore_oldNames _)
    (registerHeader_oldNames leaf) (changeStore_oldNames _)

end

theorem quiet_symbols : Quiet Build.symbols :=
  fun _ _ _ => rfl

/-- What is made of a value is registered, and is no producer. -/
theorem produced_oldNames (x : Except SheetError Value) (reference : Bool) (d : Declared)
    (b : Build) : Ensures (do
      let element ← elementFor (← ofExcept x) reference
      applyDeclared d element
      return element) b b.OldNames fun _ _ => True := by
  apply Ensures.bind (P := fun _ _ => True)
  · have kept : Keeps Build.symbols (ofExcept x) := ofExcept_keeps x
    exact kept.ensures fun t same => ⟨(OldNames.refl b).of_symbols same, trivial⟩
  intro value t old _
  have made := (@elementFor_sparing t t.store value reference (.refl t.store)).2
  apply Ensures.bind (P := fun e _ => isProducer e = false)
  · refine ⟨old.of_symbols (elementFor_quiet quiet_symbols value reference t), fun e he => ?_⟩
    exact not_isProducer_of_not_inStore (made e he)
  intro e u old leaf
  apply Ensures.bind (P := fun _ _ => True)
  · exact ⟨applyDeclared_oldNames leaf d u old, fun _ _ => trivial⟩
  · exact fun _ _ old _ => .pure old trivial

theorem evaluate_oldNames (container : Element) (ready : b.ready child = true) :
    b.OldNames (evaluate container child b : Except SheetError Element × Build).2 := by
  cases child with
  | expression e => exact (Ensures.get_bind (produced_oldNames _ _ _ b)).1
  | call c => exact (Ensures.get_bind (produced_oldNames _ _ _ b)).1
  | _ => cases ready

/-- What is done with the result of a producer registers nothing more. -/
theorem symbols_put (container : Element) (before : List Element) (child : Element)
    (rest : List Element) (b : Build) :
    (put container before child rest b :
      Except SheetError (Element × List Element) × Build).2.symbols =
      (evaluate container child b : Except SheetError Element × Build).2.symbols := by
  have later (produced : Element) : Keeps Build.symbols (do
      let spliced ← fit container produced
      changeStore fun s => s.setChildren container (before ++ spliced ++ rest)
      modify Build.sweep
      return (produced, spliced)) := by
    refine (fit_quiet quiet_symbols container produced).bind fun spliced => ?_
    apply Keeps.bind
    · exact Keeps.modify fun _ => rfl
    intro _
    apply Keeps.bind
    · exact Keeps.modify fun _ => rfl
    · exact fun _ => .pure _
  exact Keeps.after later (evaluate container child) b

/-! ## Resolving -/

theorem Puts.left {out : Except SheetError (Element × List Element) × Build}
    (h : Puts container before child rest b out) (producer : isProducer e = true) :
    Left b.store out.2.store e := by
  have old : b.store.InStore e := inStore_of_isProducer producer
  cases h with
  | failed spares _ => exact spares.left e old
  | @placed _ spliced _ m _ _ spares _ _ =>
      refine (spares.left e old).trans ?_
      cases container with
      | vector v => exact left_updateVector _ _ (by rintro rfl; cases producer)
      | frame f => exact left_updateFrame _ _ (by rintro rfl; cases producer)
      | stack k => exact left_updateStack _ _ (by rintro rfl; cases producer)
      | _ => exact .refl _ e

/-- The law of the names of producers. -/
theorem declares_law (roots : List Element) : Law roots (fun b => b.Sound ∧ b.Declares)
    (fun _ _ => True) (fun e => e.isPremature = false) where
  refl _ := trivial
  trans _ _ := trivial
  wf h := h.1.wf
  binds := by
    intro b container child e key h under here asks known
    obtain ⟨sound, -⟩ := (sound_law roots).binds h.1 under here asks known
    have binds := bindKey_binds (some container) e b key
    refine ⟨⟨sound, h.2.bind binds ?_⟩, trivial⟩
    rcases bindKey_cases (some container) e b key with same | ⟨found, -, -, same⟩ <;> rw [same]
  evaluates := by
    intro b container child h under here ready
    obtain ⟨sound, -⟩ := (sound_law roots).evaluates h.1 under here ready
    obtain ⟨spares, -⟩ := evaluate_sparing container ready
    exact ⟨⟨sound, h.2.later (evaluate_oldNames container ready) fun e producer =>
      spares.left e (inStore_of_isProducer producer)⟩, trivial⟩
  puts := by
    intro b container before child rest h under split ready
    obtain ⟨sound, -, fails⟩ := (sound_law roots).puts h.1 under split ready
    have puts := puts_put container before rest ready h.1.wf
    have old := (evaluate_oldNames container ready).of_symbols
      (symbols_put container before child rest b)
    exact ⟨⟨sound, h.2.later old fun e => puts.left⟩, trivial, fails⟩

end BuildM

end Spreadsheet
