import Spreadsheet.Tree

/-!
# Styles from outside in

Each container puts its own attributes before those it inherits and hands the result to its
children, to each its part of the border.  A cell takes what it does not set itself: a header cell
first from the header style, then every cell from the cell style, last the fill colour.  Blank space
takes nothing and hands nothing on.
-/

namespace Spreadsheet

/-- What an element inherits. -/
structure Inherited where
  cellStyle : CellStyle := .unset
  headerStyle : CellStyle := .unset
  background : Option Color := none
  border : Border := .unset

namespace Inherited

/-- What the children of a container inherit, but for their parts of the border. -/
def within (outer : Inherited) (a : Attributes) : Inherited where
  cellStyle := a.cellStyle.inherit outer.cellStyle
  headerStyle := a.headerStyle.inherit outer.headerStyle
  background := a.background <|> outer.background
  border := a.border.inherit outer.border

/-- The style of a cell after all it inherits. -/
def applyTo (i : Inherited) (isHeader : Bool) (style : CellStyle) : CellStyle :=
  let style := { style with border := style.border.inherit i.border }
  let style := if isHeader then style.inherit i.headerStyle else style
  (style.inherit i.cellStyle).withBackground i.background

end Inherited

namespace Store

/-- Hand styles on to the children from position `index` on, of `count` children in all. -/
def cascadeChildren (cascade : Store → Element → Inherited → Store) (own : Inherited)
    (o : Orientation) (count : Nat) : Nat → Store → List Element → Store
  | _, s, [] => s
  | index, s, child :: rest =>
    let s := cascade s child { own with border := own.border.forChild index count o }
    cascadeChildren cascade own o count (index + 1) s rest

/-- Hand styles on to an element and what is at most `fuel` steps below it. -/
def cascadeWithin : Nat → Store → Element → Inherited → Store
  | _, s, .cell c, outer =>
    s.updateCell c fun n =>
      if n.inheritsStyle then { n with style := outer.applyTo n.isHeader n.style } else n
  | 0, s, _, _ => s
  | fuel + 1, s, e, outer =>
    match s.attributes? e, s.orientation? e with
    | some a, some o =>
      if a.inheritsStyle then
        let children := s.children e
        cascadeChildren (cascadeWithin fuel) (outer.within a) o children.length 0 s children
      else s
    | _, _ => s

/-- Hand styles on to an element and everything below it. -/
def cascade (s : Store) (e : Element) (outer : Inherited) : Store :=
  cascadeWithin s.depthBound s e outer

end Store

end Spreadsheet
