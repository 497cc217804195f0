import Spreadsheet.Proofs.Layout.Tables

/-!
# Where the style of a cell comes from

A cell takes each attribute that it does not set from the nearest of its surroundings that does, a
header cell first of all from the header styles.  Nothing else happens when styles are handed down,
and once they are, handing them down again changes nothing.
-/

namespace Spreadsheet

/-! ## Attributes -/

/-- The attributes of a style, its border apart, by the type of their values. -/
inductive Attribute : Type → Type where
  | bold : Attribute Bool
  | italic : Attribute Bool
  | underline : Attribute Bool
  | fontName : Attribute String
  | fontSize : Attribute Float
  | fontColor : Attribute Color
  | fillColor : Attribute Color
  | align : Attribute Align
  | valign : Attribute VAlign
  | indent : Attribute Nat
  | wrap : Attribute Bool
  | numberFormat : Attribute String
  | colWidth : Attribute Float
  | rowHeight : Attribute Float
  | autofit : Attribute Bool

namespace Attribute

variable {α : Type}

/-- What a style sets an attribute to. -/
def get : {α : Type} → Attribute α → CellStyle → Option α
  | _, bold, s => s.bold
  | _, italic, s => s.italic
  | _, underline, s => s.underline
  | _, fontName, s => s.fontName
  | _, fontSize, s => s.fontSize
  | _, fontColor, s => s.fontColor
  | _, fillColor, s => s.fillColor
  | _, align, s => s.align
  | _, valign, s => s.valign
  | _, indent, s => s.indent
  | _, wrap, s => s.wrap
  | _, numberFormat, s => s.numberFormat
  | _, colWidth, s => s.colWidth
  | _, rowHeight, s => s.rowHeight
  | _, autofit, s => s.autofit

/-- What a background sets an attribute to: it is a fill colour. -/
def ofBackground : {α : Type} → Attribute α → Option Color → Option α
  | _, fillColor, color => color
  | _, _, _ => none

theorem get_inherit (a : Attribute α) (own outer : CellStyle) :
    a.get (own.inherit outer) = (a.get own).or (a.get outer) := by
  cases a <;> exact Option.orElse_eq_or

theorem get_withBackground (a : Attribute α) (s : CellStyle) (color : Option Color) :
    a.get (s.withBackground color) = (a.get s).or (a.ofBackground color) := by
  cases a <;> first | exact Option.orElse_eq_or | exact (Option.or_none).symm

theorem ofBackground_orElse (a : Attribute α) (own outer : Option Color) :
    a.ofBackground (own <|> outer) = (a.ofBackground own).or (a.ofBackground outer) := by
  cases a <;> first | exact Option.orElse_eq_or | rfl

theorem get_border (a : Attribute α) (s : CellStyle) (border : Border) :
    a.get { s with border } = a.get s := by
  cases a <;> rfl

theorem get_applyTo (a : Attribute α) (i : Inherited) (isHeader : Bool) (style : CellStyle) :
    a.get (i.applyTo isHeader style) =
      (((a.get style).or (if isHeader then a.get i.headerStyle else none)).or
        (a.get i.cellStyle)).or (a.ofBackground i.background) := by
  cases isHeader <;> simp [Inherited.applyTo, get_withBackground, get_inherit, get_border]

end Attribute

/-! ## Taking a style a second time -/

theorem BorderSide.inherit_absorb (a b c : BorderSide) :
    ((a.inherit b).inherit c).inherit b = (a.inherit b).inherit c := by
  by_cases ha : a = .unset
  · by_cases hb : b = .unset
    · simp [ha, hb]
    · simp [ha, hb, BorderSide.inherit]
  · simp [ha, BorderSide.inherit]

theorem Border.inherit_absorb (a b c : Border) :
    ((a.inherit b).inherit c).inherit b = (a.inherit b).inherit c := by
  simp only [Border.inherit, Sides.zipWith, BorderSide.inherit_absorb]

theorem orElse_absorb {α : Type} (a b c : Option α) :
    (((a <|> b) <|> c) <|> b) = ((a <|> b) <|> c) := by
  cases a <;> cases b <;> cases c <;> rfl

/-- A style that was taken leaves nothing to be taken from it again. -/
theorem CellStyle.inherit_absorb (a b c : CellStyle) :
    ((a.inherit b).inherit c).inherit b = (a.inherit b).inherit c := by
  simp only [CellStyle.inherit, orElse_absorb, Border.inherit_absorb]

namespace Inherited

/-- All that a cell takes of what it inherits, as one style. -/
def source (i : Inherited) (isHeader : Bool) : CellStyle :=
  let border := { CellStyle.unset with border := i.border }
  let styles := (border.inherit (if isHeader then i.headerStyle else .unset)).inherit i.cellStyle
  styles.withBackground i.background

theorem applyTo_eq (i : Inherited) (isHeader : Bool) (style : CellStyle) :
    i.applyTo isHeader style = style.inherit (i.source isHeader) := by
  cases isHeader <;>
    simp [applyTo, source, CellStyle.inherit, CellStyle.withBackground, CellStyle.unset,
      Option.orElse_eq_or, Option.or_assoc, Border.inherit_assoc]

end Inherited

namespace Store

variable {s t u : Store} {root e child : Element} {above : List Element} {c : CellId}
  {outer : Inherited} {a : Attributes} {o : Orientation}

/-! ## What handing down styles changes -/

/-- Whether a store differs from another in the styles of cells only, which may have taken some of
what they did not set. -/
structure Restyles (s t : Store) : Prop where
  vectors : t.vectors = s.vectors
  frames : t.frames = s.frames
  groups : t.groups = s.groups
  size : t.cells.size = s.cells.size
  cell : ∀ c, ∃ taken, t.cell c = { s.cell c with style := (s.cell c).style.inherit taken }

theorem Restyles.refl (s : Store) : Restyles s s :=
  ⟨rfl, rfl, rfl, rfl, fun _ => ⟨.unset, by rw [CellStyle.inherit_unset]⟩⟩

theorem Restyles.trans (first : Restyles s t) (second : Restyles t u) : Restyles s u where
  vectors := second.vectors.trans first.vectors
  frames := second.frames.trans first.frames
  groups := second.groups.trans first.groups
  size := second.size.trans first.size
  cell c := by
    obtain ⟨x, hx⟩ := first.cell c
    obtain ⟨y, hy⟩ := second.cell c
    exact ⟨x.inherit y, by rw [hy, hx, CellStyle.inherit_assoc]⟩

theorem chains_restyles : Chains Restyles :=
  ⟨.refl, .trans⟩

theorem Restyles.children (h : Restyles s t) (e : Element) : t.children e = s.children e := by
  cases e <;>
    simp [Store.children, Store.vector, Store.frame, Store.stack, h.vectors, h.frames, h.groups]

theorem Restyles.attributes? (h : Restyles s t) (e : Element) :
    t.attributes? e = s.attributes? e := by
  cases e <;>
    simp [Store.attributes?, Store.vector, Store.frame, Store.stack, h.vectors, h.frames, h.groups]

theorem Restyles.orientation? (h : Restyles s t) (e : Element) :
    t.orientation? e = s.orientation? e := by
  cases e <;>
    simp [Store.orientation?, Store.vector, Store.frame, Store.stack, h.vectors, h.frames, h.groups]

theorem Restyles.depthBound (h : Restyles s t) : t.depthBound = s.depthBound := by
  simp [Store.depthBound, h.vectors, h.frames, h.groups]

theorem Restyles.marks (h : Restyles s t) (c : CellId) :
    (t.cell c).inheritsStyle = (s.cell c).inheritsStyle ∧
      (t.cell c).isHeader = (s.cell c).isHeader := by
  obtain ⟨_, same⟩ := h.cell c
  simp [same]

/-- A cell together with the style that it gets. -/
def styled (outer : Inherited) (n : CellNode) : CellNode :=
  if n.inheritsStyle then { n with style := outer.applyTo n.isHeader n.style } else n

theorem styled_eq (outer : Inherited) (n : CellNode) :
    ∃ taken, styled outer n = { n with style := n.style.inherit taken } := by
  unfold styled
  split
  · exact ⟨_, by rw [Inherited.applyTo_eq]⟩
  · exact ⟨.unset, by rw [CellStyle.inherit_unset]⟩

/-- A cell that has its style, and perhaps more since, does not get it again. -/
theorem styled_again (outer : Inherited) (n : CellNode) (taken : CellStyle) :
    let m := { styled outer n with style := (styled outer n).style.inherit taken }
    styled outer m = m := by
  by_cases inherits : n.inheritsStyle = true
  · simp [styled, inherits, Inherited.applyTo_eq, CellStyle.inherit_absorb]
  · simp [styled, inherits]

theorem restyles_updateCell (s : Store) (c : CellId) (outer : Inherited) :
    Restyles s (s.updateCell c (styled outer)) where
  vectors := rfl
  frames := rfl
  groups := rfl
  size := Table.size_update _ _ _
  cell d := by
    rcases cell_updateCell_cases s c d (styled outer) with same | same
    · exact ⟨.unset, by rw [same, CellStyle.inherit_unset]⟩
    · rw [same]
      exact styled_eq outer _

theorem restyles_cascadeWithin (fuel : Nat) (s : Store) (e : Element) (outer : Inherited) :
    Restyles s (cascadeWithin fuel s e outer) :=
  cascadeWithin_relates chains_restyles restyles_updateCell fuel s e outer

theorem restyles_cascadeChildren (fuel : Nat) (own : Inherited) (o : Orientation)
    (count index : Nat) (s : Store) (l : List Element) :
    Restyles s (cascadeChildren (cascadeWithin fuel) own o count index s l) :=
  cascadeChildren_relates chains_restyles (restyles_cascadeWithin fuel) own o count index s l

/-! ## One step -/

theorem cascadeWithin_cell (fuel : Nat) (s : Store) (c : CellId) (outer : Inherited) :
    cascadeWithin fuel s (.cell c) outer = s.updateCell c (styled outer) := by
  cases fuel <;> rfl

theorem cascadeWithin_container (fuel : Nat) (s : Store) (outer : Inherited)
    (hc : e.isContainer = true) :
    ∃ a o, s.attributes? e = some a ∧ s.orientation? e = some o ∧
      cascadeWithin (fuel + 1) s e outer = if a.inheritsStyle then
        cascadeChildren (cascadeWithin fuel) (outer.within a) o (s.children e).length 0 s
          (s.children e)
      else s := by
  cases e with
  | vector | frame | stack => exact ⟨_, _, rfl, rfl, rfl⟩
  | _ => cases hc

theorem cascadeWithin_zero (s : Store) (outer : Inherited) (hc : e.isContainer = true) :
    cascadeWithin 0 s e outer = s := by
  cases e with
  | vector | frame | stack => rfl
  | _ => cases hc

/-- Elements that are neither cells nor containers have nothing to hand styles to. -/
theorem cascadeWithin_other (fuel : Nat) (s : Store) (outer : Inherited) (cell : asCell? e = none)
    (hc : e.isContainer = false) : cascadeWithin fuel s e outer = s := by
  cases e with
  | gap | expression | call => cases fuel <;> rfl
  | cell => cases cell
  | _ => cases hc

/-! ## Handing down styles a second time -/

theorem updateCell_eq_self (s : Store) {c : CellId} {f : CellNode → CellNode}
    (h : c.index < s.cells.size → f (s.cell c) = s.cell c) : s.updateCell c f = s := by
  have same : s.cells.update c.index f = s.cells := by
    refine congrArg Table.mk (Array.ext_getElem? fun j => ?_)
    rw [Array.getElem?_modify]
    split
    case isTrue here =>
      subst here
      cases entry : s.cells.entries[c.index]? with
      | none => rfl
      | some n =>
          have inside : c.index < s.cells.size := (Array.getElem?_eq_some_iff.1 entry).1
          have fixed := h inside
          rw [cell, Table.get, entry] at fixed
          exact congrArg some fixed
    case isFalse => rfl
  rw [updateCell, same]

theorem cascadeWithin_cell_again (fuel : Nat) {c : CellId}
    (h : Restyles (cascadeWithin fuel t (.cell c) outer) u) :
    cascadeWithin fuel u (.cell c) outer = u := by
  rw [cascadeWithin_cell] at h ⊢
  refine updateCell_eq_self u fun inside => ?_
  have inside : c.index < t.cells.size := by
    rwa [h.size, (restyles_updateCell t c outer).size] at inside
  obtain ⟨taken, same⟩ := h.cell c
  rw [cell_updateCell_self t (styled outer) inside] at same
  rw [same]
  exact styled_again outer (t.cell c) taken

theorem cascadeChildren_again {fuel : Nat} {own : Inherited} {count : Nat}
    (again : ∀ {t u : Store} {e : Element} {outer : Inherited},
      Restyles (cascadeWithin fuel t e outer) u → cascadeWithin fuel u e outer = u)
    (index : Nat) (l : List Element)
    (h : Restyles (cascadeChildren (cascadeWithin fuel) own o count index t l) u) :
    cascadeChildren (cascadeWithin fuel) own o count index u l = u := by
  induction l generalizing index t with
  | nil => rfl
  | cons child rest ih =>
      have later := restyles_cascadeChildren fuel own o count (index + 1)
        (cascadeWithin fuel t child { own with border := own.border.forChild index count o }) rest
      rw [cascadeChildren, again (later.trans h)]
      exact ih (index + 1) h

theorem cascadeWithin_container_again {fuel : Nat}
    (again : ∀ {t u : Store} {e : Element} {outer : Inherited},
      Restyles (cascadeWithin fuel t e outer) u → cascadeWithin fuel u e outer = u)
    (hc : e.isContainer = true) (h : Restyles (cascadeWithin (fuel + 1) t e outer) u) :
    cascadeWithin (fuel + 1) u e outer = u := by
  have since := (restyles_cascadeWithin (fuel + 1) t e outer).trans h
  obtain ⟨a, o, ha, ho, first⟩ := cascadeWithin_container fuel t outer hc
  obtain ⟨b, p, hb, hp, second⟩ := cascadeWithin_container fuel u outer hc
  obtain rfl : b = a := Option.some.inj (hb.symm.trans ((since.attributes? e).trans ha))
  obtain rfl : p = o := Option.some.inj (hp.symm.trans ((since.orientation? e).trans ho))
  rw [second, since.children]
  rw [first] at h
  split at h
  case isTrue inherits =>
    rw [if_pos inherits]
    exact cascadeChildren_again again 0 (t.children e) h
  case isFalse blank => rw [if_neg blank]

/-- Styles that are handed down leave nothing to be handed down again, even when others have been
handed down since. -/
theorem cascadeWithin_again (fuel : Nat) {e : Element} {outer : Inherited}
    (h : Restyles (cascadeWithin fuel t e outer) u) : cascadeWithin fuel u e outer = u := by
  induction fuel generalizing t u e outer with
  | zero =>
      cases e with
      | cell c => exact cascadeWithin_cell_again _ h
      | gap | expression | call => exact cascadeWithin_other 0 u outer rfl rfl
      | _ => exact cascadeWithin_zero u outer rfl
  | succ fuel ih =>
      cases e with
      | cell c => exact cascadeWithin_cell_again _ h
      | gap | expression | call => exact cascadeWithin_other (fuel + 1) u outer rfl rfl
      | _ => exact cascadeWithin_container_again ih rfl h

theorem cascade_again (s : Store) (e : Element) (outer : Inherited) :
    (s.cascade e outer).cascade e outer = s.cascade e outer := by
  have same := (restyles_cascadeWithin s.depthBound s e outer).depthBound
  rw [cascade, cascade, same]
  exact cascadeWithin_again s.depthBound (.refl _)

/-! ## The way down to a cell -/

/-- The way from a root down to an element, with the given containers in between, the nearest first. -/
inductive Way (s : Store) (root : Element) : List Element → Element → Prop
  | root : Way s root [] root
  | child {above : List Element} {parent child : Element} (way : Way s root above parent)
      (below : child ∈ s.children parent) : Way s root (parent :: above) child

theorem Way.reach (h : Way s root above e) : Reach s root e := by
  induction h with
  | root => exact .root
  | child _ below ih => exact .child ih below

/-- The way down to an element that is not the root leads through a child of the root. -/
theorem Way.cases_root (h : Way s root above e) : above = [] ∧ e = root ∨
    ∃ child ∈ s.children root, ∃ upper, above = upper ++ [root] ∧ Way s child upper e := by
  induction h with
  | root => exact .inl ⟨rfl, rfl⟩
  | @child above parent child way below ih =>
      rcases ih with ⟨rfl, rfl⟩ | ⟨first, hfirst, upper, rfl, rest⟩
      · exact .inr ⟨child, below, [], rfl, .root⟩
      · exact .inr ⟨first, hfirst, parent :: upper, rfl, .child rest below⟩

theorem Way.of_child (h : Way s child above e) (below : child ∈ s.children root) :
    Way s root (above ++ [root]) e := by
  induction h with
  | root => exact .child .root below
  | child _ below' ih => exact .child ih below'

/-- Whether all containers of a list hand styles on. -/
def HandOn (s : Store) (above : List Element) : Prop :=
  ∀ e ∈ above, ∀ a, s.attributes? e = some a → a.inheritsStyle = true

theorem handOn_append_singleton (ha : s.attributes? root = some a) :
    s.HandOn (above ++ [root]) ↔ s.HandOn above ∧ a.inheritsStyle = true := by
  simp only [HandOn, List.mem_append, List.mem_singleton, or_imp, forall_and, forall_eq, ha,
    Option.some.injEq, forall_eq']

/-- There is only one way down to a cell that is in a tree only once. -/
theorem Way.unique (acyclic : s.Acyclic) (once : (s.leaves root).Nodup)
    {other : List Element} (h : Way s root above (.cell c)) (h' : Way s root other (.cell c)) :
    above = other := by
  induction root using acyclic.induction generalizing above other with
  | step root ih =>
      rcases h.cases_root with ⟨rfl, rfl⟩ | ⟨child, below, upper, rfl, way⟩
      · rcases h'.cases_root with ⟨rfl, -⟩ | ⟨child', below', -⟩
        · rfl
        · cases below'
      · rcases h'.cases_root with ⟨-, rfl⟩ | ⟨child', below', upper', rfl, way'⟩
        · cases below
        · obtain rfl := acyclic.child_unique once below below' (acyclic.mem_leaves.2 way.reach)
            (acyclic.mem_leaves.2 way'.reach)
          rw [ih child below (acyclic.nodup_leaves_child once below) way way']

/-! ## Cells that keep their style -/

/-- Whether a cell gets a style from a root on no way. -/
def Shielded (s : Store) (root : Element) (c : CellId) : Prop :=
  ∀ above, Way s root above (.cell c) → s.HandOn above → (s.cell c).inheritsStyle = false

theorem shielded_of_not_mem_leaves (acyclic : s.Acyclic) (h : c ∉ s.leaves root) :
    s.Shielded root c :=
  fun _ way => absurd (acyclic.mem_leaves.2 way.reach) h

theorem cell_updateCell_styled (s : Store) {c d : CellId} (outer : Inherited)
    (h : c = d → (s.cell d).inheritsStyle = false) :
    (s.updateCell c (styled outer)).cell d = s.cell d := by
  rcases cell_updateCell_cases s c d (styled outer) with same | same
  · exact same
  · by_cases here : c = d
    · rw [same, styled, if_neg (by simp [h here])]
    · exact cell_updateCell_of_ne s _ here

theorem cell_cascadeChildren {fuel : Nat} {own : Inherited} {count index : Nat}
    {l : List Element} (same : Restyles s t) (shielded : ∀ child ∈ l, s.Shielded child c)
    (each : ∀ {t : Store} {e : Element} {outer : Inherited}, Restyles s t → s.Shielded e c →
      (cascadeWithin fuel t e outer).cell c = t.cell c) :
    (cascadeChildren (cascadeWithin fuel) own o count index t l).cell c = t.cell c := by
  induction l generalizing t index with
  | nil => rfl
  | cons child rest ih =>
      rw [cascadeChildren]
      rw [ih (same.trans (restyles_cascadeWithin fuel t child _))
        fun x hx => shielded x (List.mem_cons_of_mem child hx)]
      exact each same (shielded child List.mem_cons_self)

theorem cell_cascadeWithin_leaf (fuel : Nat) {d : CellId} (same : Restyles s t)
    (shielded : s.Shielded (.cell d) c) :
    (cascadeWithin fuel t (.cell d) outer).cell c = t.cell c := by
  rw [cascadeWithin_cell]
  refine cell_updateCell_styled t outer fun here => ?_
  subst here
  rw [(same.marks d).1]
  exact shielded [] .root (fun _ h => absurd h List.not_mem_nil)

theorem cell_cascadeWithin_container {fuel : Nat} (same : Restyles s t)
    (shielded : s.Shielded e c) (hc : e.isContainer = true)
    (each : ∀ {t : Store} {e : Element} {outer : Inherited}, Restyles s t → s.Shielded e c →
      (cascadeWithin fuel t e outer).cell c = t.cell c) :
    (cascadeWithin (fuel + 1) t e outer).cell c = t.cell c := by
  obtain ⟨a, o, ha, -, step⟩ := cascadeWithin_container fuel t outer hc
  rw [step]
  split
  case isTrue inherits =>
    rw [same.children]
    refine cell_cascadeChildren same (fun child below above way open' => ?_) each
    have ha' : s.attributes? e = some a := (same.attributes? e).symm.trans ha
    exact shielded _ (way.of_child below) ((handOn_append_singleton ha').2 ⟨open', inherits⟩)
  case isFalse => rfl

/-- A cell that is shielded from the styles of a root keeps its own. -/
theorem cell_cascadeWithin (fuel : Nat) {e : Element} {outer : Inherited} (same : Restyles s t)
    (shielded : s.Shielded e c) : (cascadeWithin fuel t e outer).cell c = t.cell c := by
  induction fuel generalizing t e outer with
  | zero =>
      cases e with
      | cell d => exact cell_cascadeWithin_leaf 0 same shielded
      | gap | expression | call => rw [cascadeWithin_other 0 t outer rfl rfl]
      | _ => rw [cascadeWithin_zero t outer rfl]
  | succ fuel ih =>
      cases e with
      | cell d => exact cell_cascadeWithin_leaf (fuel + 1) same shielded
      | gap | expression | call => rw [cascadeWithin_other (fuel + 1) t outer rfl rfl]
      | _ => exact cell_cascadeWithin_container same shielded rfl ih

/-! ## The nearest value of an attribute -/

variable {α : Type}

/-- The first value that is set. -/
def firstSet (values : List (Option α)) : Option α :=
  values.findSome? id

theorem firstSet_append (l l' : List (Option α)) :
    firstSet (l ++ l') = (firstSet l).or (firstSet l') :=
  List.findSome?_append

theorem firstSet_singleton (value : Option α) : firstSet [value] = value := by
  cases value <;> rfl

/-- What the containers around a cell have for it, the nearest first, and then what comes from
outside of them all. -/
def channel (s : Store) (own : Attributes → Option α) (above : List Element)
    (outermost : Option α) : List (Option α) :=
  (above.filterMap s.attributes?).map own ++ [outermost]

/-- All that may give an attribute of a cell, the first that does so first: its own style, for a
header cell the header styles around it, the cell styles around it, and the backgrounds. -/
def candidates (s : Store) (field : Attribute α) (outer : Inherited) (above : List Element)
    (n : CellNode) : List (Option α) :=
  [field.get n.style] ++
    (if n.isHeader then
      s.channel (field.get ·.headerStyle) above (field.get outer.headerStyle) else []) ++
    s.channel (field.get ·.cellStyle) above (field.get outer.cellStyle) ++
    s.channel (field.ofBackground ·.background) above (field.ofBackground outer.background)

/-- The outermost container and what comes from outside are together what comes from outside of the
others. -/
theorem channel_append_singleton (own : Attributes → Option α) (outermost : Option α)
    (ha : s.attributes? root = some a) :
    firstSet (s.channel own (above ++ [root]) outermost) =
      firstSet (s.channel own above ((own a).or outermost)) := by
  simp only [channel, List.filterMap_append, List.map_append, firstSet_append]
  simp only [List.filterMap_cons, ha, List.filterMap_nil, List.map_cons, List.map_nil,
    firstSet_singleton, Option.or_assoc]

theorem candidates_append_singleton (field : Attribute α) (n : CellNode)
    (ha : s.attributes? root = some a) :
    firstSet (s.candidates field outer (above ++ [root]) n) =
      firstSet (s.candidates field (outer.within a) above n) := by
  simp only [candidates, firstSet_append, channel_append_singleton _ _ ha, Inherited.within,
    Attribute.get_inherit, Attribute.ofBackground_orElse]
  split
  · simp only [channel_append_singleton _ _ ha]
  · rfl

theorem candidates_self (field : Attribute α) (n : CellNode) :
    firstSet (s.candidates field outer [] n) =
      field.get (outer.applyTo n.isHeader n.style) := by
  simp only [candidates, channel, List.filterMap_nil, List.map_nil, List.nil_append,
    firstSet_append, firstSet_singleton, Attribute.get_applyTo]
  split
  · rw [firstSet_singleton]
  · rfl

/-- Where a cell is below one child only, it gets its style from there. -/
theorem cell_cascadeChildren_below (child : Element) (fuel : Nat) (own : Inherited) (o : Orientation)
    (count index : Nat) {before after : List Element} (same : Restyles s t)
    (others : ∀ e ∈ before ++ after, s.Shielded e c) :
    ∃ t', Restyles s t' ∧ t'.cell c = t.cell c ∧
      (cascadeChildren (cascadeWithin fuel) own o count index t (before ++ child :: after)).cell c =
        (cascadeWithin fuel t' child
          { own with border := own.border.forChild (index + before.length) count o }).cell c := by
  induction before generalizing t index with
  | nil =>
      refine ⟨t, same, rfl, ?_⟩
      rw [List.nil_append, cascadeChildren]
      exact cell_cascadeChildren (same.trans (restyles_cascadeWithin fuel t child _)) others
        (cell_cascadeWithin fuel)
  | cons first before ih =>
      let next := cascadeWithin fuel t first { own with border := own.border.forChild index count o }
      have kept : next.cell c = t.cell c :=
        cell_cascadeWithin fuel same (others first List.mem_cons_self)
      obtain ⟨t', same', kept', result⟩ :=
        ih (index + 1) (same.trans (restyles_cascadeWithin fuel t first _))
          fun e he => others e (List.mem_cons_of_mem first he)
      refine ⟨t', same', kept'.trans kept, ?_⟩
      rw [List.length_cons, ← Nat.add_assoc, Nat.add_right_comm]
      exact result

/-- All children but the one that a cell is below leave its style alone. -/
theorem shielded_siblings (acyclic : s.Acyclic) (once : (s.leaves root).Nodup)
    {before after : List Element} (split : s.children root = before ++ child :: after)
    (leaf : c ∈ s.leaves child) : ∀ e ∈ before ++ after, s.Shielded e c := by
  have apart := acyclic.disjoint_children once
  rw [split, List.pairwise_append, List.pairwise_cons] at apart
  obtain ⟨-, ⟨later, -⟩, earlier⟩ := apart
  intro e he
  refine shielded_of_not_mem_leaves acyclic fun other => ?_
  rcases List.mem_append.1 he with he | he
  · exact earlier e he child List.mem_cons_self other leaf
  · exact later e he leaf other

/-- Each attribute of a cell that gets styles is the nearest one. -/
theorem get_cascadeWithin {rank : Element → Nat} (isRank : s.IsRank rank) (acyclic : s.Acyclic)
    (field : Attribute α) {fuel : Nat} {e : Element} {outer : Inherited}
    (enough : rank e ≤ fuel) (once : (s.leaves e).Nodup) (inside : c.index < s.cells.size)
    (way : Way s e above (.cell c)) (handOn : s.HandOn above)
    (inherits : (s.cell c).inheritsStyle = true) (same : Restyles s t)
    (kept : t.cell c = s.cell c) :
    field.get ((cascadeWithin fuel t e outer).cell c).style =
      firstSet (s.candidates field outer above (s.cell c)) := by
  induction fuel generalizing t e above outer with
  | zero =>
      have := isRank.positive e
      omega
  | succ fuel ih =>
      rcases way.cases_root with ⟨rfl, rfl⟩ | ⟨child, below, upper, rfl, lower⟩
      · rw [← same.size] at inside
        rw [cascadeWithin_cell, cell_updateCell_self t _ inside, kept, styled, if_pos inherits]
        exact (candidates_self field _).symm
      · obtain ⟨a, o, ha, -, step⟩ :=
          cascadeWithin_container fuel t outer (isContainer_of_child below)
        rw [same.attributes?] at ha
        obtain ⟨open', open_root⟩ := (handOn_append_singleton ha).1 handOn
        obtain ⟨before, after, split⟩ := List.append_of_mem below
        have leaf := acyclic.mem_leaves.2 lower.reach
        obtain ⟨t', same', kept', result⟩ :=
          cell_cascadeChildren_below child fuel (outer.within a) o (s.children e).length 0 same
            (shielded_siblings acyclic once split leaf)
        rw [step, if_pos open_root, same.children]
        rw [split] at result ⊢
        rw [result, candidates_append_singleton field _ ha]
        exact ih (isRank.child_le below enough) (acyclic.nodup_leaves_child once below) lower open'
          same' (kept'.trans kept)

/-- A cell that inherits, as do all containers around it, has each attribute from the nearest
that sets it.  Any other cell keeps its style.  Once styles are handed down, there are none left to hand
down. -/
theorem cascade_nearest (root : Element) (outer : Inherited) (acyclic : s.Acyclic) (once : (s.leaves root).Nodup)
    (inside : ∀ c ∈ s.leaves root, c.index < s.cells.size) :
    (∀ above c, Way s root above (.cell c) →
      ((s.cell c).inheritsStyle = true ∧ s.HandOn above →
        ∀ (α : Type) (field : Attribute α),
          field.get ((s.cascade root outer).cell c).style =
            firstSet (s.candidates field outer above (s.cell c))) ∧
      (¬((s.cell c).inheritsStyle = true ∧ s.HandOn above) →
        (s.cascade root outer).cell c = s.cell c)) ∧
    (s.cascade root outer).cascade root outer = s.cascade root outer := by
  obtain ⟨rank, isRank⟩ := acyclic.exists_rank
  refine ⟨fun above c way => ⟨fun ⟨inherits, handOn⟩ α field => ?_, fun shielded => ?_⟩,
    cascade_again s root outer⟩
  · exact get_cascadeWithin isRank acyclic field (isRank.bounded root) once
      (inside c (acyclic.mem_leaves.2 way.reach)) way handOn inherits (.refl s) rfl
  · refine cell_cascadeWithin s.depthBound (.refl s) fun other way' handOn => ?_
    obtain rfl := way.unique acyclic once way'
    simpa [handOn] using shielded

/-! ## A column under a header -/

/-- A frame of bold cells with one column: a header, and a cell that is not bold by itself. -/
def ledger : Store where
  cells := ⟨#[{ value := .text "Rent", isHeader := true },
    { value := .text "12", style := { bold := some false } }]⟩
  vectors := ⟨#[
    { orientation := .vertical
      children := [.cell ⟨0⟩, .cell ⟨1⟩]
      headerInserted := true
      attributes := { cellStyle := { italic := some true } } }]⟩
  frames := ⟨#[
    { orientation := .horizontal
      children := [.vector ⟨0⟩]
      attributes := { cellStyle := { bold := some true } } }]⟩

theorem ledger_wellFormed : ledger.WellFormed :=
  wellFormed_of_falling (fun | .frame _ => 2 | .vector _ => 1 | _ => 0) (by decide) (by decide)

/-- The header is underlined from outside and slanted as its column is.  It is not bold, since the
header style comes before the cell style of the frame. -/
theorem cascade_nearest_ledger :
    let dressed := ledger.cascade (.frame ⟨0⟩)
      { headerStyle := { bold := some false }, cellStyle := { underline := some true } }
    Attribute.bold.get (dressed.cell ⟨0⟩).style = some false ∧
      Attribute.italic.get (dressed.cell ⟨0⟩).style = some true ∧
      Attribute.underline.get (dressed.cell ⟨0⟩).style = some true ∧
      dressed.cascade (.frame ⟨0⟩)
        { headerStyle := { bold := some false }, cellStyle := { underline := some true } } =
          dressed := by
  obtain ⟨cells, again⟩ := cascade_nearest (.frame ⟨0⟩)
    { headerStyle := { bold := some false }, cellStyle := { underline := some true } }
    ledger_wellFormed.acyclic (by decide) (by decide)
  have way : Way ledger (.frame ⟨0⟩) [.vector ⟨0⟩, .frame ⟨0⟩] (.cell ⟨0⟩) :=
    .child (.child .root List.mem_cons_self) List.mem_cons_self
  have handOn : ledger.HandOn [.vector ⟨0⟩, .frame ⟨0⟩] := by
    intro e he a ha
    rcases he with _ | ⟨_, _ | ⟨_, ⟨⟩⟩⟩ <;> cases ha <;> rfl
  have nearest := (cells _ _ way).1 ⟨rfl, handOn⟩
  exact ⟨nearest Bool .bold, nearest Bool .italic, nearest Bool .underline, again⟩

end Store

end Spreadsheet
