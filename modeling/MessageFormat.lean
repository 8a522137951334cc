import MessageFormat.Position
import MessageFormat.Text.Classes
import MessageFormat.Text.Pieces
import MessageFormat.Cursor
import MessageFormat.Literal
import MessageFormat.Decimal.Numeral
import MessageFormat.Decimal.Binary64
import MessageFormat.Decimal.Shortest
import MessageFormat.Decimal.Layout
import MessageFormat.Json.Basic
import MessageFormat.Json.Pretty
import MessageFormat.Json.Reader
import MessageFormat.NumberFormat.Basic
import MessageFormat.NumberFormat.Skeleton
import MessageFormat.NumberFormat.Meaning
import MessageFormat.NumberFormat.Application
import MessageFormat.DateTimeFormat.Basic
import MessageFormat.DateTimeFormat.Skeleton
import MessageFormat.Element.Basic
import MessageFormat.Element.Json
import MessageFormat.Fault
import MessageFormat.Options
import MessageFormat.Event
import MessageFormat.Parse.Reader
import MessageFormat.Parse.Style
import MessageFormat.Parse.Choice
import MessageFormat.Parse.Tag
import MessageFormat.Parse.Message
import MessageFormat.LanguageTag
import MessageFormat.DisplayNames
import MessageFormat.ArgumentValue
import MessageFormat.Files
import MessageFormat.Catalogue.Entry
import MessageFormat.Catalogue.Source
import MessageFormat.Configuration.Toml.Document
import MessageFormat.Configuration.Toml.Scalar
import MessageFormat.Configuration.LogFilter
import MessageFormat.Configuration.Basic
import MessageFormat.Diagnostic
import MessageFormat.Command.Basic
import MessageFormat.Command.Run
import MessageFormat.CommandLine
import MessageFormat.Program
import MessageFormat.Main
import MessageFormat.Proofs.Cursor
import MessageFormat.Proofs.Reading
import MessageFormat.Proofs.Grammar.Words
import MessageFormat.Proofs.Grammar.Style
import MessageFormat.Proofs.Grammar.Written
import MessageFormat.Proofs.Grammar.Refused
import MessageFormat.Proofs.Grammar.Completeness
import MessageFormat.Proofs.Source
import MessageFormat.Proofs.Tiling
import MessageFormat.Proofs.Positions
import MessageFormat.Proofs.WellFormed
import MessageFormat.Proofs.Anchors
import MessageFormat.Proofs.Rendering.Forms
import MessageFormat.Proofs.Rendering.ReadBack
import MessageFormat.Proofs.Rendering.Render
import MessageFormat.Proofs.Comparison.Relabelling
import MessageFormat.Proofs.Comparison.Runs
import MessageFormat.Proofs.Comparison.Messages
import MessageFormat.Proofs.Nesting
import MessageFormat.Proofs.Erasure
import MessageFormat.Proofs.OtherBranch
import MessageFormat.Proofs.Excerpt.Window
import MessageFormat.Proofs.Excerpt.Cut
import MessageFormat.Proofs.Interpretation
import MessageFormat.Proofs.Flattening
import MessageFormat.Proofs.Catalogue.Places
import MessageFormat.Proofs.Catalogue.Blocks
import MessageFormat.Proofs.Catalogue.Writing
import MessageFormat.Proofs.Validation
import MessageFormat.Proofs.NumberFormat.Words
import MessageFormat.Proofs.NumberFormat.Application
import MessageFormat.Proofs.NumberFormat.Refusals
import MessageFormat.Proofs.DateTimeFormat.Refusals
import MessageFormat.Proofs.DateTimeFormat.Runs
import MessageFormat.Proofs.DateTimeFormat.Fields
import MessageFormat.Proofs.SkeletonCauses
import MessageFormat.Proofs.LanguageTag.Canonical
import MessageFormat.Proofs.NumberFormat.Bounds
import MessageFormat.Proofs.ExactSelectors
import MessageFormat.Proofs.DisplayNames
import MessageFormat.Proofs.CommandLine
import MessageFormat.Proofs.NumberFormat.Independence
import MessageFormat.Proofs.NumberFormat.Patterns
import MessageFormat.Proofs.Adjacency
import MessageFormat.Proofs.StyleText
import MessageFormat.Proofs.Integers
import MessageFormat.Proofs.LanguageTag.Matching
import MessageFormat.Proofs.Json.Components
import MessageFormat.Proofs.Json.RoundTrip
import MessageFormat.Proofs.Progress.Calls
