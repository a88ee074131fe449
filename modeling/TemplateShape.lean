import TemplateShape.Decimal.Basic
import TemplateShape.Decimal.Shortest
import TemplateShape.Fields
import TemplateShape.Form.Address
import TemplateShape.Form.Field
import TemplateShape.Form.Kind
import TemplateShape.Json.Basic
import TemplateShape.Json.Fault
import TemplateShape.Json.Reader
import TemplateShape.Json.Writer
import TemplateShape.Notice
import TemplateShape.Outline.Basic
import TemplateShape.Outline.Refill
import TemplateShape.Path
import TemplateShape.Proofs.Decimal.Whole
import TemplateShape.Proofs.Fields
import TemplateShape.Proofs.Form.Address
import TemplateShape.Proofs.Form.Collected
import TemplateShape.Proofs.Form.Fields
import TemplateShape.Proofs.Form.Frame
import TemplateShape.Proofs.Form.Layout
import TemplateShape.Proofs.Form.Lens
import TemplateShape.Proofs.Form.Names
import TemplateShape.Proofs.Form.Numbers
import TemplateShape.Proofs.Form.Refilled
import TemplateShape.Proofs.Form.Untouched
import TemplateShape.Proofs.Json.Objects
import TemplateShape.Proofs.Json.Strings
import TemplateShape.Proofs.Json.Values
import TemplateShape.Proofs.Outline.Recorded
import TemplateShape.Proofs.Outline.Refill
import TemplateShape.Proofs.Outline.Rows
import TemplateShape.Proofs.Padding
import TemplateShape.Proofs.Path
import TemplateShape.Proofs.Path.Grammar
import TemplateShape.Proofs.Scan.Borders
import TemplateShape.Proofs.Scan.Extension
import TemplateShape.Proofs.Scan.Lookahead
import TemplateShape.Proofs.Scan.Progress
import TemplateShape.Proofs.Scan.Replaced
import TemplateShape.Proofs.Scan.Sites
import TemplateShape.Proofs.Scan.Stops
import TemplateShape.Proofs.Scan.Takes
import TemplateShape.Proofs.Scan.Values
import TemplateShape.Proofs.Scan.Written
import TemplateShape.Proofs.Shape.Alike
import TemplateShape.Proofs.Shape.Fits
import TemplateShape.Proofs.Shape.Frame
import TemplateShape.Proofs.Shape.Growth
import TemplateShape.Proofs.Shape.Kind
import TemplateShape.Proofs.Shape.Rebuild
import TemplateShape.Proofs.Shape.Tidy
import TemplateShape.Proofs.Shape.Walk
import TemplateShape.Proofs.Template.Append
import TemplateShape.Proofs.Template.Arrays
import TemplateShape.Proofs.Template.Bounds
import TemplateShape.Proofs.Template.Calls
import TemplateShape.Proofs.Template.Conditions
import TemplateShape.Proofs.Template.Counts
import TemplateShape.Proofs.Template.Coverage
import TemplateShape.Proofs.Template.Edges
import TemplateShape.Proofs.Template.Exchange
import TemplateShape.Proofs.Template.Growth
import TemplateShape.Proofs.Template.Heads
import TemplateShape.Proofs.Template.Items
import TemplateShape.Proofs.Template.Kind
import TemplateShape.Proofs.Template.Leaves
import TemplateShape.Proofs.Template.Lists
import TemplateShape.Proofs.Template.Literals
import TemplateShape.Proofs.Template.Lookahead
import TemplateShape.Proofs.Template.Loops
import TemplateShape.Proofs.Template.Names
import TemplateShape.Proofs.Template.Nesting
import TemplateShape.Proofs.Template.Origin
import TemplateShape.Proofs.Template.PassOrder
import TemplateShape.Proofs.Template.Plain
import TemplateShape.Proofs.Template.Points
import TemplateShape.Proofs.Template.Precedence
import TemplateShape.Proofs.Template.Printing
import TemplateShape.Proofs.Template.Reserved
import TemplateShape.Proofs.Template.Scrubbed
import TemplateShape.Proofs.Template.Spaced
import TemplateShape.Proofs.Template.Splitting
import TemplateShape.Proofs.Template.Struck
import TemplateShape.Proofs.Template.Surroundings
import TemplateShape.Proofs.Template.Tags
import TemplateShape.Proofs.Template.Tidy
import TemplateShape.Proofs.Template.Uses
import TemplateShape.Proofs.Template.Verbatim
import TemplateShape.Proofs.Text.Trim
import TemplateShape.Reserved
import TemplateShape.Scan.Basic
import TemplateShape.Scan.Cut
import TemplateShape.Session
import TemplateShape.Settings
import TemplateShape.Shape.Basic
import TemplateShape.Shape.Write
import TemplateShape.Template.Condition
import TemplateShape.Template.Draft
import TemplateShape.Template.Finding
import TemplateShape.Template.Outline
import TemplateShape.Template.Pass
import TemplateShape.Template.Tag
import TemplateShape.Text.Ascii
import TemplateShape.Text.Blank
import TemplateShape.Text.Extending
import TemplateShape.Text.Printable
import TemplateShape.Text.Quoted
import TemplateShape.Word
