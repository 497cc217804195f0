import Spreadsheet.Layout.Headers
import Spreadsheet.Layout.Spacing
import Spreadsheet.Layout.Gaps
import Spreadsheet.Layout.Place
import Spreadsheet.Layout.Cascade

/-!
# Laying out a sheet

From a resolved tree to placed cells in their styles: headers become cells, sizes, margins and
padding are applied, gaps become cells, every element is placed, and styles are handed down.  All
sheets are laid out before any is written, so that formulas see final locations.
-/

namespace Spreadsheet.BuildM

/-- Report several lines in order. -/
def noteAll (notices : List Notice) : BuildM Unit :=
  notices.forM note

/-- Lay out an element with its top left corner in the first cell of a sheet. -/
def layOut (root : Element) (sheet : String) (outer : Inherited) : BuildM Unit := do
  changeStore fun s => s.prepareHeaders root
  liftStore (StoreM.insertHeaders root)
  changeStore fun s => s.applySizes root
  noteAll (← liftStore (StoreM.wrapSpacing root))
  liftStore (StoreM.explodeGaps root)
  changeStore fun s => s.place root ⟨sheet, 0, 0⟩
  changeStore fun s => s.cascade root outer

end Spreadsheet.BuildM
