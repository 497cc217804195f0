import Spreadsheet.Text.CodeRange
import Spreadsheet.Text.Blank
import Spreadsheet.Text.WordChar
import Spreadsheet.Text.Unprintable
import Spreadsheet.Text.Lowercase
import Spreadsheet.Number.Binary
import Spreadsheet.Number.Total
import Spreadsheet.Number.Shortest
import Spreadsheet.Number.Text
import Spreadsheet.Number.Read
import Spreadsheet.Text.Quoted
import Spreadsheet.Text.Bytes
import Spreadsheet.Template.Expr
import Spreadsheet.Template.Error
import Spreadsheet.Template.Placeholder
import Spreadsheet.Template.Token
import Spreadsheet.Template.Parser
import Spreadsheet.Template.Prepared
import Spreadsheet.Template.Cycle
import Spreadsheet.Formula.Quotes
import Spreadsheet.Formula.CleanUp
import Spreadsheet.Formula.Functions
import Spreadsheet.Formula.FutureName
import Spreadsheet.Location
import Spreadsheet.Kind
import Spreadsheet.Error
import Spreadsheet.Style.Color
import Spreadsheet.Style.Sides
import Spreadsheet.Style.Border
import Spreadsheet.Style.Spacing
import Spreadsheet.Style.CellStyle
import Spreadsheet.CellValue
import Spreadsheet.Element
import Spreadsheet.Formula
import Spreadsheet.Table
import Spreadsheet.Store
import Spreadsheet.Tree
import Spreadsheet.Symbols
import Spreadsheet.Lifetime
import Spreadsheet.Config
import Spreadsheet.Build
import Spreadsheet.Construct
import Spreadsheet.Resolve.Grid
import Spreadsheet.Resolve.Call
import Spreadsheet.Resolve.Evaluate
import Spreadsheet.Resolve.Bind
import Spreadsheet.Resolve.Pass
import Spreadsheet.Resolve.FixedPoint
import Spreadsheet.Formula.Writer
import Spreadsheet.Layout
import Spreadsheet.SheetName
import Spreadsheet.Sink
import Spreadsheet.Layout.Write
import Spreadsheet.Producer
import Spreadsheet.Arithmetic
import Spreadsheet.Workbook
import Spreadsheet.Toml.Value
import Spreadsheet.Toml.Strings
import Spreadsheet.Toml.Numbers
import Spreadsheet.Toml.Tables
import Spreadsheet.Toml.Document
import Spreadsheet.Toml.Fields
import Spreadsheet.Description
import Spreadsheet.Description.Build
import Spreadsheet.Template.Printer
import Spreadsheet.Formula.Printer
import Spreadsheet.Inspect
import Spreadsheet.Style.Format
import Spreadsheet.CommandLine.Arguments
import Spreadsheet.CommandLine.Files
import Spreadsheet.CommandLine.Run
import Spreadsheet.Main
import Spreadsheet.Proofs.Monad
import Spreadsheet.Proofs.Store.Reach
import Spreadsheet.Proofs.Store.Extents
import Spreadsheet.Proofs.Store.Evolution
import Spreadsheet.Proofs.Store.Forest
import Spreadsheet.Proofs.Store.Growth
import Spreadsheet.Proofs.Store.Updates
import Spreadsheet.Proofs.Store.Fresh
import Spreadsheet.Proofs.Layout.Headers
import Spreadsheet.Proofs.Layout.Spacing
import Spreadsheet.Proofs.Layout.Gaps
import Spreadsheet.Proofs.Layout.Place
import Spreadsheet.Proofs.Layout.Area
import Spreadsheet.Proofs.Build
import Spreadsheet.Proofs.Layout.Sheet
import Spreadsheet.Proofs.Layout.Book
import Spreadsheet.Proofs.Resolve.Produced
import Spreadsheet.Proofs.Resolve.Advance
import Spreadsheet.Proofs.Resolve.Limit
import Spreadsheet.Proofs.Resolve.Weight
import Spreadsheet.Proofs.Resolve.Steps
import Spreadsheet.Proofs.Resolve.Stalled
import Spreadsheet.Proofs.Resolve.Binding
import Spreadsheet.Proofs.Resolve.Evolution
import Spreadsheet.Proofs.Formula.Rendering
import Spreadsheet.Proofs.Layout.Write
import Spreadsheet.Proofs.Workbook
import Spreadsheet.Proofs.Number.Exact
import Spreadsheet.Proofs.Number.Unsigned
import Spreadsheet.Proofs.Template.Parts
import Spreadsheet.Proofs.Template.Parsed
import Spreadsheet.Proofs.Formula.Grammar
import Spreadsheet.Proofs.Formula.Passes
import Spreadsheet.Proofs.Formula.Spelling
import Spreadsheet.Proofs.Formula.CleanUp
import Spreadsheet.Proofs.Formula.Marking
import Spreadsheet.Proofs.Location
import Spreadsheet.Proofs.Formula.Tokens
import Spreadsheet.Proofs.Formula.Reading
import Spreadsheet.Proofs.Formula.Compiled
import Spreadsheet.Proofs.Formula.Pointing
import Spreadsheet.Proofs.Sheets
import Spreadsheet.Proofs.Template.Derivation
import Spreadsheet.Proofs.Template.Expansion
import Spreadsheet.Proofs.Template.Lookups
import Spreadsheet.Proofs.Template.References
import Spreadsheet.Proofs.Lifetime
import Spreadsheet.Proofs.Resolve.Linked
import Spreadsheet.Proofs.Resolve.Ready
import Spreadsheet.Proofs.Resolve.Replace
import Spreadsheet.Proofs.Resolve.Settled
import Spreadsheet.Proofs.Resolve.Solvable
import Spreadsheet.Proofs.Layout.Shapes
import Spreadsheet.Proofs.Layout.Ranges
import Spreadsheet.Proofs.Layout.Blocks
import Spreadsheet.Proofs.Layout.Places
import Spreadsheet.Proofs.Resolve.Places
import Spreadsheet.Proofs.Formula.Anchors
import Spreadsheet.Proofs.Strict
import Spreadsheet.Proofs.Resolve.Novel
import Spreadsheet.Proofs.Resolve.Names
import Spreadsheet.Proofs.Resolve.Replaces
import Spreadsheet.Proofs.Resolve.History
import Spreadsheet.Proofs.Resolve.Timely
import Spreadsheet.Proofs.Resolve.Bound
import Spreadsheet.Proofs.Resolve.Intact
import Spreadsheet.Proofs.Layout.ColumnNames
import Spreadsheet.Proofs.Layout.Titles
import Spreadsheet.Proofs.Layout.Columns
import Spreadsheet.Proofs.Layout.Tables
import Spreadsheet.Proofs.Layout.Cascade
import Spreadsheet.Proofs.Layout.AllTables
import Spreadsheet.Proofs.Layout.TableSpecs
import Spreadsheet.Proofs.Tables
import Spreadsheet.Proofs.Handed
import Spreadsheet.Proofs.TablesApart
import Spreadsheet.Proofs.Resolve.Complete
import Spreadsheet.Proofs.Tidy.Operations
import Spreadsheet.Proofs.Formula.Substitution
import Spreadsheet.Proofs.Resolve.Broadcast
import Spreadsheet.Proofs.Layout.Lines
import Spreadsheet.Proofs.Layout.Perimeter
import Spreadsheet.Proofs.Formula.Spans
import Spreadsheet.Proofs.Layout.Filling
import Spreadsheet.Proofs.Layout.Expanding
import Spreadsheet.Proofs.Layout.Exploding
import Spreadsheet.Proofs.Layout.Rectangular
import Spreadsheet.Proofs.Layout.Wrapping
import Spreadsheet.Proofs.Layout.Covering
import Spreadsheet.Proofs.Layout.Space
import Spreadsheet.Proofs.Template.Cycles
import Spreadsheet.Proofs.Symbols
import Spreadsheet.Proofs.Resolve.Hits
import Spreadsheet.Proofs.Template.Naming
import Spreadsheet.Proofs.Formula.Calls
import Spreadsheet.Proofs.Formula.Separators
import Spreadsheet.Proofs.Formula.Literals
import Spreadsheet.Proofs.Resolve.Registered
import Spreadsheet.Proofs.Resolve.Circles
import Spreadsheet.Proofs.Resolve.Pointwise
import Spreadsheet.Proofs.Layout.Renaming
import Spreadsheet.Proofs.Layout.TableRequests
import Spreadsheet.Proofs.Text.Nesting
import Spreadsheet.Proofs.Formula.Parentheses
import Spreadsheet.Proofs.Description.Arguments
import Spreadsheet.Proofs.Description.Operands
import Spreadsheet.Proofs.Template.Slices
import Spreadsheet.Proofs.Formula.Ending
