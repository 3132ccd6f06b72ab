import ConfigTemplate.Text.Blank
import ConfigTemplate.Text.Utf8
import ConfigTemplate.Tree.Lookup
import ConfigTemplate.Tree.Insert
import ConfigTemplate.Tree.Environment
import ConfigTemplate.Json.Reader
import ConfigTemplate.Json.Sorted
import ConfigTemplate.Template.Render
import ConfigTemplate.Inventory.Extract
import ConfigTemplate.Remote.Resolve
import ConfigTemplate.Remote.Payload
import ConfigTemplate.Disk.Template
import ConfigTemplate.Disk.Load
import ConfigTemplate.Proofs.Reference.Interior
import ConfigTemplate.Proofs.Reference.Lines
import ConfigTemplate.Proofs.Reference.Grammar
import ConfigTemplate.Proofs.Template.References
import ConfigTemplate.Proofs.Template.Nesting
import ConfigTemplate.Proofs.Template.Failure
import ConfigTemplate.Proofs.Tree.Extension
import ConfigTemplate.Proofs.Template.Strokes
import ConfigTemplate.Proofs.Template.Source
import ConfigTemplate.Proofs.Inventory.Fatal
import ConfigTemplate.Proofs.Inventory.Preflight
import ConfigTemplate.Proofs.Template.Shadowing
import ConfigTemplate.Proofs.Inventory.Sections
import ConfigTemplate.Proofs.Inventory.Coverage
import ConfigTemplate.Proofs.Tree.Merge
import ConfigTemplate.Proofs.Remote.Flight
import ConfigTemplate.Proofs.Remote.Fetch
import ConfigTemplate.Proofs.Tree.Descend
import ConfigTemplate.Proofs.Remote.Specs
import ConfigTemplate.Proofs.Tree.Precedence
import ConfigTemplate.Proofs.Remote.Resolve
import ConfigTemplate.Proofs.Tree.Leaves
import ConfigTemplate.Proofs.Tree.Variables
import ConfigTemplate.Proofs.Tree.Collisions
import ConfigTemplate.Proofs.Reference.Occurrences
import ConfigTemplate.Proofs.Json.Readings
import ConfigTemplate.Proofs.Json.Pretty
import ConfigTemplate.Proofs.Reference.Whole
import ConfigTemplate.Proofs.Inventory.Variables
import ConfigTemplate.Proofs.Disk.Shape
import ConfigTemplate.Proofs.Disk.Location
import ConfigTemplate.Proofs.Disk.Rendering
import ConfigTemplate.Proofs.Disk.Prediction
import ConfigTemplate.Proofs.Template.Layers
import ConfigTemplate.Proofs.Reference.Adjacent
import ConfigTemplate.Proofs.Template.Places
import ConfigTemplate.Proofs.Template.Loops
import ConfigTemplate.Proofs.Tree.Grouping
import ConfigTemplate.Proofs.Decimal.Value
import ConfigTemplate.Proofs.Template.Conditionals
import ConfigTemplate.Proofs.Reference.Spans
import ConfigTemplate.Proofs.Template.Substitution
import ConfigTemplate.Proofs.Tree.Setting
import ConfigTemplate.Proofs.Tree.Sameness
import ConfigTemplate.Proofs.Remote.Repeats
import ConfigTemplate.Proofs.Template.PostOrder
import ConfigTemplate.Proofs.Reference.Printing
import ConfigTemplate.Proofs.Reference.NestingLimit
import ConfigTemplate.Proofs.Template.Padding
import ConfigTemplate.Proofs.Inventory.Buckets
import ConfigTemplate.Proofs.Inventory.Unconfigured
import ConfigTemplate.Proofs.Inventory.Union
import ConfigTemplate.Proofs.Template.Rerendering
import ConfigTemplate.Proofs.Text.Slices
import ConfigTemplate.Proofs.Reference.Positions
import ConfigTemplate.Proofs.Reference.Calls
import ConfigTemplate.Proofs.Template.Positions
import ConfigTemplate.Proofs.Text.Stretches
import ConfigTemplate.Proofs.Inventory.Stretches
import ConfigTemplate.Proofs.Disk.Extraction
import ConfigTemplate.Proofs.Disk.Undecodable
