import ComponentFile.Block.Basic
import ComponentFile.Block.Extraction
import ComponentFile.Command.Arguments
import ComponentFile.Command.Execution
import ComponentFile.Diagnostic
import ComponentFile.Dictionary
import ComponentFile.Directive.Basic
import ComponentFile.Directive.Encoding
import ComponentFile.Directive.Placeholder
import ComponentFile.Discovery.FileTree
import ComponentFile.Discovery.Path
import ComponentFile.Discovery.Search
import ComponentFile.Document.Basic
import ComponentFile.Document.Encoding
import ComponentFile.Document.Reading
import ComponentFile.Document.Report
import ComponentFile.Document.Statistics
import ComponentFile.Expression.Basic
import ComponentFile.Expression.Encoding
import ComponentFile.Expression.Form
import ComponentFile.Expression.Nesting
import ComponentFile.Expression.Operator
import ComponentFile.Expression.Printer
import ComponentFile.Expression.Reader
import ComponentFile.Json
import ComponentFile.Main
import ComponentFile.Proofs.Directive.References
import ComponentFile.Numeral.Binary64
import ComponentFile.Numeral.Layout
import ComponentFile.Numeral.Shortest
import ComponentFile.Settings
import ComponentFile.SettingsFile
import ComponentFile.Template.Component
import ComponentFile.Template.Conditional
import ComponentFile.Template.Header
import ComponentFile.Template.Insertion
import ComponentFile.Template.Loop
import ComponentFile.Template.Registry
import ComponentFile.Template.Processing
import ComponentFile.Template.Segment
import ComponentFile.Text.Basic
import ComponentFile.Text.Blank
import ComponentFile.Text.Digits
import ComponentFile.Text.Quoted
import ComponentFile.Text.Unprintable
import ComponentFile.Text.WordCharacter
import ComponentFile.Toml.Construction
import ComponentFile.Toml.Lexical
import ComponentFile.Toml.Number
import ComponentFile.Toml.Reader
import ComponentFile.Toml.Value
import ComponentFile.Validation.Code
import ComponentFile.Validation.Finding
import ComponentFile.Validation.Markup
import ComponentFile.Validation.Rules
import ComponentFile.Proofs.Template.Rewriting
import ComponentFile.Proofs.Template.Replacement
import ComponentFile.Proofs.Template.Conditional
import ComponentFile.Proofs.Template.Loop
import ComponentFile.Proofs.Template.Component
import ComponentFile.Proofs.Template.Processing
import ComponentFile.Proofs.Template.Forest
import ComponentFile.Proofs.Template.Expansion
import ComponentFile.Proofs.Outline.Basic
import ComponentFile.Proofs.Outline.Reading
import ComponentFile.Proofs.Outline.Tokens
import ComponentFile.Proofs.Outline.Piece
import ComponentFile.Proofs.Outline.Fitting
import ComponentFile.Proofs.Outline.Marking
import ComponentFile.Proofs.Outline.Conditional
import ComponentFile.Proofs.Outline.Loop
import ComponentFile.Proofs.Outline.Insertion
import ComponentFile.Proofs.Outline.Header
import ComponentFile.Proofs.Outline.Passes
import ComponentFile.Proofs.Outline.Recovery
import ComponentFile.Proofs.Block.Assembly
import ComponentFile.Proofs.Document.Assembly
import ComponentFile.Proofs.Template.Items
import ComponentFile.Proofs.Template.Limit
import ComponentFile.Proofs.Template.Tidy
import ComponentFile.Proofs.Template.Hosting
import ComponentFile.Proofs.Template.Attributes
import ComponentFile.Proofs.Template.Orphans
import ComponentFile.Proofs.Draft.Level
import ComponentFile.Proofs.Draft.Accounting
import ComponentFile.Proofs.Draft.Conditional
import ComponentFile.Proofs.Draft.Loop
import ComponentFile.Proofs.Draft.Passes
import ComponentFile.Proofs.Draft.Findings
import ComponentFile.Proofs.Expression.Nesting
import ComponentFile.Proofs.Expression.Grammar
import ComponentFile.Proofs.Expression.Operators
import ComponentFile.Proofs.Expression.Phrases
import ComponentFile.Proofs.Expression.Cuts
import ComponentFile.Proofs.Expression.Ink
import ComponentFile.Proofs.Numeral.Rounding
import ComponentFile.Proofs.Numeral.ReadBack
import ComponentFile.Proofs.Expression.Forms
import ComponentFile.Proofs.Expression.Atoms
import ComponentFile.Proofs.Expression.Parsing
import ComponentFile.Proofs.Expression.Numerals
import ComponentFile.Proofs.Expression.RoundTrip
import ComponentFile.Proofs.Expression.Written
import ComponentFile.Proofs.Expression.NormalForm
import ComponentFile.Proofs.Directive.Search
import ComponentFile.Proofs.Document.Isolation
import ComponentFile.Proofs.Template.Balance
import ComponentFile.Proofs.Template.Anatomy
import ComponentFile.Proofs.Template.Element
import ComponentFile.Proofs.Draft.Element
import ComponentFile.Proofs.Draft.Skeleton
import ComponentFile.Proofs.Draft.Composition
import ComponentFile.Proofs.Expression.Wrapping
import ComponentFile.Proofs.Text.Pattern
import ComponentFile.Proofs.Block.Elements
import ComponentFile.Proofs.Block.FencePattern
import ComponentFile.Proofs.Validation.Markup
import ComponentFile.Proofs.Document.Statistics
import ComponentFile.Proofs.Discovery.Paths
import ComponentFile.Proofs.Discovery.Search
import ComponentFile.Proofs.Discovery.Relisting
import ComponentFile.Proofs.Expression.Offsets
import ComponentFile.Proofs.Expression.Slices
import ComponentFile.Proofs.Expression.SlicedForms
import ComponentFile.Proofs.Validation.Layout
import ComponentFile.Proofs.Validation.Positions
import ComponentFile.Proofs.Expression.Matching
import ComponentFile.Proofs.Template.Interpolation
