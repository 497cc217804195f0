import Spreadsheet.Number.Text
import Spreadsheet.Style.CellStyle

/-!
# Formats of a file

A file knows fewer distinctions than a style: a format has every attribute, with a default where a
style sets none, and has no sizes.  Styles that give the same format look the same in the file.
-/

namespace Spreadsheet

/-- A line at a side of a cell. -/
structure BorderLine where
  weight : BorderWeight
  color : Color
deriving DecidableEq

/-- The line of a side, if one is drawn. -/
def BorderSide.line? : BorderSide → Option BorderLine
  | .line weight color => some ⟨weight, color⟩
  | .unset | .removed => none

/-- The look of a cell in a file. -/
structure CellFormat where
  bold : Bool
  italic : Bool
  underline : Bool
  fontName : String
  /-- The font size as it is written. -/
  fontSize : String
  fontColor : Option Color
  fillColor : Option Color
  align : Option Align
  valign : Option VAlign
  indent : Nat
  wrap : Bool
  numberFormat : String
  lines : Sides (Option BorderLine)
deriving DecidableEq

/-- The font of cells that are given none. -/
def defaultFont : String := "Calibri"

/-- The font size of cells that are given none. -/
def defaultFontSize : String := "11"

/-- The number format of cells that are given none. -/
def defaultNumberFormat : String := "General"

namespace CellStyle

/-- The format that a style gives. -/
def format (s : CellStyle) : CellFormat where
  bold := s.bold.getD false
  italic := s.italic.getD false
  underline := s.underline.getD false
  fontName := s.fontName.getD defaultFont
  fontSize := (s.fontSize.map Number.plain).getD defaultFontSize
  fontColor := s.fontColor
  fillColor := s.fillColor
  align := s.align
  valign := s.valign
  indent := s.indent.getD 0
  wrap := s.wrap.getD false
  numberFormat := s.numberFormat.getD defaultNumberFormat
  lines :=
    ⟨s.border.top.line?, s.border.right.line?, s.border.bottom.line?, s.border.left.line?⟩

/-- Whether two sizes are both missing or equal as numbers. -/
def sameSize : Option Float → Option Float → Bool
  | some x, some y => x == y
  | none, none => true
  | _, _ => false

/-- Whether two styles are equal, sizes compared as numbers. -/
def same (s t : CellStyle) : Bool :=
  sameSize s.fontSize t.fontSize && sameSize s.colWidth t.colWidth
    && sameSize s.rowHeight t.rowHeight
    && { s with fontSize := none, colWidth := none, rowHeight := none }
      == { t with fontSize := none, colWidth := none, rowHeight := none }

end CellStyle

end Spreadsheet
