import DesignTokens.Assignment
import DesignTokens.Build.Css
import DesignTokens.Build.Multi
import DesignTokens.Build.Rule
import DesignTokens.Build.Single
import DesignTokens.Build.Trace
import DesignTokens.Command.Arguments
import DesignTokens.Command.Files
import DesignTokens.Command.Invocation
import DesignTokens.Command.Report
import DesignTokens.Command.Run
import DesignTokens.Config
import DesignTokens.Decimal.Binary
import DesignTokens.Decimal.Fixed
import DesignTokens.Decimal.Shortest
import DesignTokens.Diagnostic
import DesignTokens.Document
import DesignTokens.Fault
import DesignTokens.Journal
import DesignTokens.Json.Error
import DesignTokens.Json.Reader
import DesignTokens.Json.Writer
import DesignTokens.Main
import DesignTokens.Mode
import DesignTokens.Naming
import DesignTokens.OrdMap
import DesignTokens.Override.Merge
import DesignTokens.Override.Minimal
import DesignTokens.Override.Sanitize
import DesignTokens.Palette.Cache
import DesignTokens.Palette.Cam16
import DesignTokens.Palette.Color
import DesignTokens.Palette.ColorSpace
import DesignTokens.Palette.Contrast
import DesignTokens.Palette.Generate
import DesignTokens.Palette.Ladder
import DesignTokens.Palette.Roles
import DesignTokens.Palette.Tokens
import DesignTokens.Proofs.Build.Buildable
import DesignTokens.Proofs.Build.Cascade
import DesignTokens.Proofs.Build.Computed
import DesignTokens.Proofs.Build.Minimal
import DesignTokens.Proofs.Build.Present
import DesignTokens.Proofs.Build.Rule
import DesignTokens.Proofs.Build.Single
import DesignTokens.Proofs.Build.Steps
import DesignTokens.Proofs.Build.Values
import DesignTokens.Proofs.OrdMap
import DesignTokens.Proofs.Outcome
import DesignTokens.Proofs.Override.Merge
import DesignTokens.Proofs.Override.Minimal
import DesignTokens.Proofs.Resolution.Context
import DesignTokens.Proofs.Resolution.Ending
import DesignTokens.Proofs.Resolution.Partial
import DesignTokens.Proofs.Resolution.Project
import DesignTokens.Proofs.Resolution.Theme
import DesignTokens.Proofs.Resolution.Walk
import DesignTokens.Proofs.Stylesheet.Basic
import DesignTokens.Proofs.Stylesheet.Change
import DesignTokens.Proofs.Stylesheet.Computed
import DesignTokens.Proofs.Stylesheet.Condensed
import DesignTokens.Proofs.Stylesheet.Minimal
import DesignTokens.Proofs.Stylesheet.Plan
import DesignTokens.Proofs.Way
import DesignTokens.Resolution.Basic
import DesignTokens.Resolution.Depth
import DesignTokens.Resolution.InContext
import DesignTokens.Resolution.OfTheme
import DesignTokens.Resolution.Walk
import DesignTokens.Selector.Compose
import DesignTokens.Selector.Customizer
import DesignTokens.Selector.Specificity
import DesignTokens.Stylesheet.Basic
import DesignTokens.Stylesheet.Depth
import DesignTokens.Stylesheet.Minimal
import DesignTokens.Stylesheet.Reference
import DesignTokens.Text.Blank
import DesignTokens.Text.Capital
import DesignTokens.Text.Digit
import DesignTokens.Text.Hex
import DesignTokens.Text.Integer
import DesignTokens.Text.Lines
import DesignTokens.Text.Printable
import DesignTokens.Text.Quoted
import DesignTokens.Text.Range
import DesignTokens.Text.Search
import DesignTokens.Text.Surrogate
import DesignTokens.Text.Word
import DesignTokens.Theme.Basic
import DesignTokens.Theme.Builder
import DesignTokens.Theme.Document
import DesignTokens.Theme.Validation
import DesignTokens.Value
import DesignTokens.Proofs.Resolution.Written
import DesignTokens.Proofs.Stylesheet.Lists
import DesignTokens.Proofs.Build.Separated
import DesignTokens.Proofs.Build.Secondary
import DesignTokens.Proofs.Build.Multi
import DesignTokens.Proofs.Stylesheet.Parts
import DesignTokens.Proofs.Stylesheet.Restricted
import DesignTokens.Proofs.Build.Isolated
import DesignTokens.Proofs.Build.Defaults
import DesignTokens.Proofs.Build.Used
import DesignTokens.Proofs.Stylesheet.Sound
import DesignTokens.Proofs.Build.Standing
import DesignTokens.Proofs.Build.Dangling
import DesignTokens.Proofs.Override.Literal
import DesignTokens.Proofs.Fault
import DesignTokens.Proofs.Resolution.Reference
import DesignTokens.Proofs.Resolution.Failing
import DesignTokens.Proofs.Resolution.Collapse
import DesignTokens.Proofs.Palette.Cache
import DesignTokens.Proofs.Palette.Generate
import DesignTokens.Proofs.Palette.Steps
import DesignTokens.Proofs.Palette.Placement
import DesignTokens.Proofs.Palette.Expansion
import DesignTokens.Proofs.Palette.Seeding
import DesignTokens.Proofs.Palette.Tones
import DesignTokens.Proofs.Palette.Contrast
import DesignTokens.Proofs.Validation.References
import DesignTokens.Proofs.Validation.States
import DesignTokens.Proofs.Build.Failing
import DesignTokens.Proofs.Resolution.Consistent
import DesignTokens.Proofs.Theme.Document
import DesignTokens.Proofs.Build.Unchanged
import DesignTokens.Proofs.Build.Expanded
import DesignTokens.Proofs.Override.Sanitize
import DesignTokens.Proofs.Override.Stable
import DesignTokens.Proofs.Selector.Reading
import DesignTokens.Proofs.Selector.Conjunction
import DesignTokens.Proofs.Selector.Raising
import DesignTokens.Proofs.Stylesheet.Search
import DesignTokens.Proofs.Stylesheet.History
import DesignTokens.Proofs.Selector.Canonical
import DesignTokens.Proofs.Text.Digits
import DesignTokens.Proofs.Palette.Spelling
import DesignTokens.Stylesheet.Ledger
import DesignTokens.Proofs.Stylesheet.Ledger
import DesignTokens.Proofs.Build.Tracked
