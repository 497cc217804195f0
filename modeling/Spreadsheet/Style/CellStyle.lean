import Spreadsheet.Style.Border

/-!
# The style of a cell

Every attribute of a style is optional.  A style takes from an outer one only what it does not set
itself, so what is set nearest to a cell wins.
-/

namespace Spreadsheet

/-- Horizontal alignment. -/
inductive Align where
  | left | center | right | fill | justify
deriving DecidableEq

/-- Vertical alignment. -/
inductive VAlign where
  | top | center | bottom
deriving DecidableEq

/-- All horizontal alignments with their names. -/
def Align.named : List (Align × String) :=
  [(left, "left"), (center, "center"), (right, "right"), (fill, "fill"), (justify, "justify")]

/-- All vertical alignments with their names. -/
def VAlign.named : List (VAlign × String) :=
  [(top, "top"), (center, "center"), (bottom, "bottom")]

/-- The attributes of a cell's appearance. -/
structure CellStyle where
  bold : Option Bool := none
  italic : Option Bool := none
  underline : Option Bool := none
  fontName : Option String := none
  fontSize : Option Float := none
  fontColor : Option Color := none
  fillColor : Option Color := none
  align : Option Align := none
  valign : Option VAlign := none
  indent : Option Nat := none
  wrap : Option Bool := none
  numberFormat : Option String := none
  border : Border := .unset
  colWidth : Option Float := none
  rowHeight : Option Float := none
  autofit : Option Bool := none
deriving DecidableEq

namespace CellStyle

/-- The style that sets nothing. -/
def unset : CellStyle := {}

instance : Inhabited CellStyle := ⟨unset⟩

/-- Whether a style sets nothing. -/
def isUnset (s : CellStyle) : Bool :=
  s == unset

/-- The style, with attributes that it does not set taken from an outer one. -/
def inherit (own outer : CellStyle) : CellStyle where
  bold := own.bold <|> outer.bold
  italic := own.italic <|> outer.italic
  underline := own.underline <|> outer.underline
  fontName := own.fontName <|> outer.fontName
  fontSize := own.fontSize <|> outer.fontSize
  fontColor := own.fontColor <|> outer.fontColor
  fillColor := own.fillColor <|> outer.fillColor
  align := own.align <|> outer.align
  valign := own.valign <|> outer.valign
  indent := own.indent <|> outer.indent
  wrap := own.wrap <|> outer.wrap
  numberFormat := own.numberFormat <|> outer.numberFormat
  border := own.border.inherit outer.border
  colWidth := own.colWidth <|> outer.colWidth
  rowHeight := own.rowHeight <|> outer.rowHeight
  autofit := own.autofit <|> outer.autofit

/-- The style with a fill colour where it sets none. -/
def withBackground (s : CellStyle) (color : Option Color) : CellStyle :=
  { s with fillColor := s.fillColor <|> color }

@[simp] theorem inherit_unset (own : CellStyle) : own.inherit .unset = own := by
  simp [inherit, unset]

@[simp] theorem unset_inherit (outer : CellStyle) : CellStyle.unset.inherit outer = outer := by
  simp [inherit, unset]

/-- Styles nest: it does not matter which two of three are joined first. -/
theorem inherit_assoc (a b c : CellStyle) :
    (a.inherit b).inherit c = a.inherit (b.inherit c) := by
  simp [inherit, Border.inherit_assoc, Option.orElse_eq_or, Option.or_assoc]

end CellStyle

/-- How a frame is shown when it is made a table. -/
structure TableOptions where
  style : Option String := none
  bandedRows : Option Bool := none
  bandedColumns : Option Bool := none
  autofilter : Option Bool := none
  name : Option String := none
deriving DecidableEq, Inhabited

namespace TableOptions

/-- The options, with those that they do not set taken from outer ones; a name is never taken. -/
def inherit (own outer : TableOptions) : TableOptions :=
  { own with
    style := own.style <|> outer.style
    bandedRows := own.bandedRows <|> outer.bandedRows
    bandedColumns := own.bandedColumns <|> outer.bandedColumns
    autofilter := own.autofilter <|> outer.autofilter }

end TableOptions

end Spreadsheet
