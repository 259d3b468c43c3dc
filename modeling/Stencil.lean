import Stencil.Text.Basic
import Stencil.Text.Range
import Stencil.Text.Blank
import Stencil.Text.WordChar
import Stencil.Text.Printable
import Stencil.Text.Quoted
import Stencil.Table
import Stencil.Number.Double
import Stencil.Number.Shortest
import Stencil.Json.Value
import Stencil.Json.Numeral
import Stencil.Json.Document
import Stencil.Template.Defect
import Stencil.Template.Token
import Stencil.Template.Path
import Stencil.Template.Condition
import Stencil.Template.Program
import Stencil.Template.Outline
import Stencil.Issue
import Stencil.Fault
import Stencil.Pattern.Basic
import Stencil.Pattern.Outlook
import Stencil.Pattern.Parts
import Stencil.Pattern.Matches
import Stencil.Pattern.Build
import Stencil.Inspection.Signatures
import Stencil.Markup.Escape
import Stencil.Markup.Sanitizer
import Stencil.Stored
import Stencil.PersonalData
import Stencil.Budget
import Stencil.Inspection.Validator
import Stencil.Digest.Sha256
import Stencil.Context.Clean
import Stencil.Text.Utf8
import Stencil.Files.Location
import Stencil.Files.Tree
import Stencil.Files.Confinement
import Stencil.Files.Reading
import Stencil.Cache
import Stencil.Sandbox.Bindings
import Stencil.Sandbox.Outcome
import Stencil.Sandbox.Inclusion
import Stencil.Sandbox.Run
import Stencil.Sandbox.Evaluation
import Stencil.Policy.Permission
import Stencil.Policy.Rate
import Stencil.Metrics.Labels
import Stencil.Metrics.Family
import Stencil.Metrics.Registry
import Stencil.Audit
import Stencil.Template.Store
import Stencil.Yaml.Cursor
import Stencil.Yaml.Gap
import Stencil.Yaml.Scalar
import Stencil.Yaml.TextBlock
import Stencil.Yaml.Property
import Stencil.Yaml.Token
import Stencil.Yaml.Document
import Stencil.Yaml.Field
import Stencil.Configuration.Basic
import Stencil.Configuration.Document
import Stencil.Renderer.Basic
import Stencil.Renderer.Attempt
import Stencil.Number.Word
import Stencil.Proofs.Pattern.Ends
import Stencil.Proofs.Pattern.Replacement
import Stencil.Proofs.Markup.Recoding
import Stencil.Proofs.Markup.Decoding
import Stencil.Proofs.Markup.TagForm
import Stencil.Proofs.Files.Following
import Stencil.Proofs.Files.Settling
import Stencil.Proofs.Files.Confinement
import Stencil.Proofs.Policy.Bound
import Stencil.Proofs.Sandbox.Meaning
import Stencil.Proofs.Sandbox.Refinement
import Stencil.Proofs.Text.Cutting
import Stencil.Proofs.Template.Scanning
import Stencil.Proofs.Template.Joining
import Stencil.Proofs.Template.Grammar
import Stencil.Proofs.Template.Keywords
import Stencil.Proofs.Template.Building
import Stencil.Proofs.Pattern.Occurrence
import Stencil.Proofs.Pattern.Matches
import Stencil.Proofs.Markup.Neutral
import Stencil.Proofs.Markup.Runs
import Stencil.Proofs.Inspection.Blanking
import Stencil.Proofs.Inspection.Visible
import Stencil.Proofs.Policy.History
import Stencil.Proofs.Sandbox.Recording
import Stencil.Proofs.Sandbox.Bounds
import Stencil.Proofs.Sandbox.Loading
import Stencil.Proofs.Sandbox.Widening
import Stencil.Proofs.Renderer.Caching
import Stencil.Proofs.Template.Placeholders
import Stencil.Proofs.Sandbox.Origins
import Stencil.Proofs.Renderer.Gates
import Stencil.Proofs.Metrics.Counting
import Stencil.Proofs.Renderer.Accounting
import Stencil.Proofs.Inspection.Cleaning
import Stencil.Proofs.Context.Binding
import Stencil.Proofs.Context.Typing
import Stencil.Proofs.Sandbox.Relevance
import Stencil.Proofs.Sandbox.Sources
import Stencil.Proofs.Sandbox.Rules
import Stencil.Proofs.Sandbox.Circles
import Stencil.Proofs.Sandbox.Inlining
import Stencil.Proofs.Policy.Rights
import Stencil.Proofs.Template.Nesting
import Stencil.Proofs.Sandbox.Depth
import Stencil.Proofs.Template.Shape
import Stencil.Proofs.Inspection.Directives
import Stencil.Proofs.Inspection.Hiding
import Stencil.Proofs.Cache.Recency
import Stencil.Proofs.Inspection.Harmless
import Stencil.Proofs.Markup.Growth
import Stencil.Proofs.Renderer.OutputSize
import Stencil.Proofs.Json.Reading
import Stencil.Proofs.Template.Storing
import Stencil.Proofs.Pattern.Search
import Stencil.Proofs.Pattern.Opening
import Stencil.Proofs.Markup.Reading
import Stencil.Proofs.Markup.Removal
import Stencil.Proofs.Markup.EscapedValues
import Stencil.Proofs.Markup.CleanDocument
import Stencil.Proofs.Inspection.Shape
import Stencil.Proofs.Inspection.Retention
import Stencil.Proofs.Inspection.Reporting
import Stencil.Proofs.Sandbox.Renaming
import Stencil.Proofs.Sandbox.Scoping
import Stencil.Proofs.Markup.Addresses
import Stencil.Proofs.PersonalData.Coverage
import Stencil.Proofs.Template.Conditions
import Stencil.Proofs.Context.Reordering
import Stencil.Proofs.Files.Reading
import Stencil.Proofs.Files.Lexical
import Stencil.Proofs.Metrics.Reading
import Stencil.Proofs.Metrics.Series
import Stencil.Proofs.Metrics.Exposition
