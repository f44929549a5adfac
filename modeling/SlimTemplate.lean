import SlimTemplate.Calendar
import SlimTemplate.Command.Arguments
import SlimTemplate.Command.Help
import SlimTemplate.Command.Run
import SlimTemplate.Command.Words
import SlimTemplate.Config
import SlimTemplate.Config.File
import SlimTemplate.Conversion.Basic
import SlimTemplate.Conversion.Batch
import SlimTemplate.Conversion.File
import SlimTemplate.Conversion.Report
import SlimTemplate.Decimal.Reading
import SlimTemplate.Decimal.Shortest
import SlimTemplate.Diff.Matches
import SlimTemplate.Diff.Unified
import SlimTemplate.Erb.Balance
import SlimTemplate.Erb.Code
import SlimTemplate.Erb.Element
import SlimTemplate.Erb.Embedded
import SlimTemplate.Erb.Line
import SlimTemplate.Erb.Markup
import SlimTemplate.Erb.Options
import SlimTemplate.Erb.Writer
import SlimTemplate.FileTree.Basic
import SlimTemplate.FileTree.Error
import SlimTemplate.FileTree.Operations
import SlimTemplate.FileTree.Resolve
import SlimTemplate.FileTree.Walk
import SlimTemplate.Files.Action
import SlimTemplate.Files.Failure
import SlimTemplate.Files.Output
import SlimTemplate.Files.Reading
import SlimTemplate.Files.Writing
import SlimTemplate.Issue
import SlimTemplate.Journal
import SlimTemplate.Main
import SlimTemplate.Path
import SlimTemplate.Proofs.Conversion.Batch
import SlimTemplate.Proofs.Conversion.File
import SlimTemplate.Proofs.Conversion.Survival
import SlimTemplate.Proofs.Erb.Acceptance
import SlimTemplate.Proofs.Erb.Blocks
import SlimTemplate.Proofs.Erb.Code
import SlimTemplate.Proofs.Erb.Elements
import SlimTemplate.Proofs.Erb.Layout
import SlimTemplate.Proofs.Erb.Lines
import SlimTemplate.Proofs.Erb.Markup
import SlimTemplate.Proofs.Erb.Reading
import SlimTemplate.Proofs.Erb.Recognition
import SlimTemplate.Proofs.Erb.Run
import SlimTemplate.Proofs.Erb.Tree
import SlimTemplate.Proofs.FileTree.Address
import SlimTemplate.Proofs.FileTree.Changes
import SlimTemplate.Proofs.FileTree.Links
import SlimTemplate.Proofs.Files.Action
import SlimTemplate.Proofs.Files.Backup
import SlimTemplate.Proofs.Files.Names
import SlimTemplate.Proofs.Files.Writing
import SlimTemplate.Proofs.Path
import SlimTemplate.Proofs.Slim.Attributes
import SlimTemplate.Proofs.Slim.Names
import SlimTemplate.Proofs.Slim.TagLine
import SlimTemplate.Proofs.Text.Lowercase
import SlimTemplate.Proofs.Text.Words
import SlimTemplate.Screen.Display
import SlimTemplate.Screen.Event
import SlimTemplate.Screen.Plain
import SlimTemplate.Screen.Progress
import SlimTemplate.Slim.Attribute
import SlimTemplate.Slim.Attributes
import SlimTemplate.Slim.Diagnostic
import SlimTemplate.Slim.Document
import SlimTemplate.Slim.Line
import SlimTemplate.Slim.Node
import SlimTemplate.Slim.Tag
import SlimTemplate.Text.Base64
import SlimTemplate.Text.Blank
import SlimTemplate.Text.Integer
import SlimTemplate.Text.Lines
import SlimTemplate.Text.Lowercase
import SlimTemplate.Text.Printable
import SlimTemplate.Text.Quoted
import SlimTemplate.Text.Ranges
import SlimTemplate.Text.Utf8
import SlimTemplate.Text.Word
import SlimTemplate.Value
import SlimTemplate.Value.Listing
import SlimTemplate.Value.Order
import SlimTemplate.Yaml.Cursor
import SlimTemplate.Yaml.Document
import SlimTemplate.Yaml.Node
import SlimTemplate.Yaml.Number
import SlimTemplate.Yaml.Object
import SlimTemplate.Yaml.Problem
import SlimTemplate.Yaml.Scalar
import SlimTemplate.Yaml.Tag
import SlimTemplate.Yaml.Timestamp
import SlimTemplate.Yaml.Token
import SlimTemplate.Proofs.FileTree.Resolution
import SlimTemplate.Proofs.FileTree.Filling
import SlimTemplate.Proofs.Files.Outcome
import SlimTemplate.Proofs.Files.Placement
import SlimTemplate.Proofs.Conversion.Turns
import SlimTemplate.Proofs.Conversion.Collisions
import SlimTemplate.Proofs.Conversion.Completion
import SlimTemplate.Proofs.Erb.Characters
import SlimTemplate.Proofs.Files.Scanning
import SlimTemplate.Proofs.Files.Upkeep
import SlimTemplate.Proofs.Conversion.Repetition
import SlimTemplate.Proofs.Erb.Joining
import SlimTemplate.Proofs.Erb.Correspondence
import SlimTemplate.Proofs.FileTree.Retention
import SlimTemplate.Proofs.Files.Endings
import SlimTemplate.Proofs.FileTree.Failure
import SlimTemplate.Proofs.Files.Hindrances
import SlimTemplate.Proofs.Conversion.Reporting
import SlimTemplate.Proofs.Files.Traces
import SlimTemplate.Proofs.Conversion.Accuracy
import SlimTemplate.Proofs.Erb.Columns
import SlimTemplate.Proofs.Erb.Settings
import SlimTemplate.Proofs.Command.Untouched
import SlimTemplate.Proofs.Slim.OutputLine
import SlimTemplate.Proofs.Conversion.Sources
import SlimTemplate.Proofs.Config.Loading
import SlimTemplate.Proofs.Files.Atomicity
import SlimTemplate.Proofs.Slim.WellFormed
import SlimTemplate.Proofs.Files.Mirroring
import SlimTemplate.Proofs.Config.Overriding
import SlimTemplate.Proofs.Files.Discovery
import SlimTemplate.Proofs.Conversion.Admission
import SlimTemplate.Proofs.Erb.Stack
import SlimTemplate.Proofs.Erb.Overflow
import SlimTemplate.Proofs.Files.Freshness
import SlimTemplate.Proofs.Conversion.Issues
import SlimTemplate.Proofs.Text.Pattern
import SlimTemplate.Proofs.Slim.Extraction
import SlimTemplate.Proofs.Erb.Attributes
