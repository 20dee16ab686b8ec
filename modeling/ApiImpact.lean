import ApiImpact.Capture
import ApiImpact.Change.Declaration
import ApiImpact.Change.ExportSurface
import ApiImpact.Change.Surface
import ApiImpact.Change.Parameter
import ApiImpact.CommandLine.Run
import ApiImpact.CommandLine.Arguments
import ApiImpact.CommandLine.Basic
import ApiImpact.CommandLine.Bundle
import ApiImpact.CommandLine.Workspace
import ApiImpact.Impact.Analysis
import ApiImpact.Impact.Basic
import ApiImpact.Impact.Dependents
import ApiImpact.Impact.Package
import ApiImpact.Impact.Tests
import ApiImpact.Impact.Usage
import ApiImpact.Json.Basic
import ApiImpact.Json.Printer
import ApiImpact.Json.Reader
import ApiImpact.Language
import ApiImpact.Main
import ApiImpact.Manifest
import ApiImpact.ModuleReference.Clause
import ApiImpact.ModuleReference.Extraction
import ApiImpact.Path.Basic
import ApiImpact.Path.Written
import ApiImpact.Project.Graph
import ApiImpact.Project.Tree
import ApiImpact.Project.Update
import ApiImpact.Report.Basic
import ApiImpact.Report.Encoding
import ApiImpact.Report.Finding
import ApiImpact.Report.Text
import ApiImpact.Rule
import ApiImpact.Script.Exports
import ApiImpact.Script.ModuleSystem
import ApiImpact.Script.Value
import ApiImpact.Script.Source
import ApiImpact.Settings
import ApiImpact.Settings.Override
import ApiImpact.Settings.Reading
import ApiImpact.Surface.Snapshot
import ApiImpact.Surface.Encoding
import ApiImpact.Surface.Export
import ApiImpact.Surface.Symbol
import ApiImpact.Text.Blank
import ApiImpact.Text.Bracket
import ApiImpact.Text.Offset
import ApiImpact.Text.Mask
import ApiImpact.Text.Pattern
import ApiImpact.Text.Unicode
import ApiImpact.TypeScript.Grammar.Access
import ApiImpact.TypeScript.Grammar.Classes
import ApiImpact.TypeScript.Grammar.Declarations
import ApiImpact.TypeScript.Grammar.Elements
import ApiImpact.TypeScript.Grammar.Expressions
import ApiImpact.TypeScript.Grammar.Functions
import ApiImpact.TypeScript.Grammar.Modules
import ApiImpact.TypeScript.Grammar.Names
import ApiImpact.TypeScript.Grammar.Statements
import ApiImpact.TypeScript.Grammar.Types
import ApiImpact.TypeScript.Lexeme
import ApiImpact.TypeScript.Parse
import ApiImpact.TypeScript.Reading
import ApiImpact.TypeScript.Surface
import ApiImpact.TypeScript.Tree
import ApiImpact.TypeScript.Usage
import ApiImpact.Yaml.Block
import ApiImpact.Yaml.Cursor
import ApiImpact.Yaml.Document
import ApiImpact.Yaml.Flow
import ApiImpact.Yaml.Outline
import ApiImpact.Yaml.Plain
import ApiImpact.Yaml.Printer
import ApiImpact.Yaml.Property
import ApiImpact.Yaml.Quoted
import ApiImpact.Yaml.Style
import ApiImpact.Yaml.Value
import ApiImpact.Proofs.Path.Steps
import ApiImpact.Proofs.Project.Tree
import ApiImpact.Proofs.Project.Walk
import ApiImpact.Proofs.Project.Entry
import ApiImpact.Proofs.Project.Coherence
import ApiImpact.Proofs.Project.Rebuild
import ApiImpact.Proofs.Project.Upkeep
import ApiImpact.Proofs.Project.Built
import ApiImpact.Proofs.Project.Notification
import ApiImpact.Proofs.Impact.Dependents
import ApiImpact.Proofs.Impact.Deletion
import ApiImpact.Proofs.Project.Outside
import ApiImpact.Proofs.Change.Index
import ApiImpact.Proofs.Change.Symbols
import ApiImpact.Proofs.Change.Exports
import ApiImpact.Proofs.Text.Blank
import ApiImpact.Proofs.Text.Pattern
import ApiImpact.Proofs.ModuleReference.Statement
import ApiImpact.Proofs.ModuleReference.Clause
import ApiImpact.Proofs.ModuleReference.Masked
import ApiImpact.Proofs.ModuleReference.Taken
import ApiImpact.Proofs.ModuleReference.Words
import ApiImpact.Proofs.ModuleReference.Silent
import ApiImpact.Proofs.Text.Offset
import ApiImpact.Proofs.ModuleReference.Roundtrip
import ApiImpact.Proofs.ModuleReference.Scattered
import ApiImpact.Proofs.Report.Selection
import ApiImpact.Proofs.Report.Loss
import ApiImpact.Proofs.Change.Extension
import ApiImpact.Proofs.Result
import ApiImpact.Proofs.Text.Shade
import ApiImpact.Proofs.Text.Mask
import ApiImpact.Proofs.Text.Lexical
import ApiImpact.Proofs.ModuleReference.Template
import ApiImpact.Proofs.Change.Unchanged
import ApiImpact.Proofs.Script.Comments
import ApiImpact.Proofs.Text.Bracket
import ApiImpact.Proofs.Script.Source
import ApiImpact.Proofs.Surface.Contents
import ApiImpact.Proofs.Script.Additions
import ApiImpact.Proofs.Script.Reexport
import ApiImpact.Proofs.Script.Referenced
import ApiImpact.Proofs.Text.Literal
import ApiImpact.Proofs.Surface.Reexports
import ApiImpact.Proofs.Change.Transitions
import ApiImpact.Proofs.Impact.Evidence
import ApiImpact.Proofs.Change.Order
import ApiImpact.Proofs.Report.Owners
import ApiImpact.Proofs.Program.Clauses
import ApiImpact.Proofs.Program.Defaults
import ApiImpact.Proofs.Program.Heads
import ApiImpact.Proofs.Program.Scripted
import ApiImpact.Proofs.Program.Number
import ApiImpact.Proofs.Program.Signature
import ApiImpact.Proofs.Program.Agreement
import ApiImpact.Proofs.Path.Display
import ApiImpact.Proofs.Impact.Partition
import ApiImpact.Proofs.TypeScript.Yields
import ApiImpact.Proofs.TypeScript.Additions
import ApiImpact.Proofs.Report.Names
import ApiImpact.Proofs.Script.Declaration
import ApiImpact.Proofs.Script.System
import ApiImpact.Proofs.Script.BreakOff
import ApiImpact.Proofs.Script.Completes
import ApiImpact.Proofs.Script.Places
import ApiImpact.Proofs.Script.Inside
import ApiImpact.Proofs.Impact.Outcome
import ApiImpact.Proofs.CommandLine.Package
import ApiImpact.Proofs.Surface.Entries
import ApiImpact.Proofs.Script.Growth
import ApiImpact.Proofs.Surface.Recorded
import ApiImpact.Proofs.Functions.Written
import ApiImpact.Proofs.Functions.Declared
import ApiImpact.Proofs.Functions.Recovered
import ApiImpact.Proofs.Change.Calls
import ApiImpact.Proofs.Project.Invalidation
import ApiImpact.Proofs.Change.Spacing
import ApiImpact.Proofs.Change.TypeScan
import ApiImpact.Proofs.Change.TypeMembers
import ApiImpact.Proofs.Change.Overloads
import ApiImpact.Proofs.Impact.Usage
import ApiImpact.Proofs.Report.Disclaimer
import ApiImpact.Proofs.Impact.Alias
import ApiImpact.Proofs.ModuleReference.Renamed
import ApiImpact.Proofs.Text.Pieces
import ApiImpact.Proofs.Text.Closing
import ApiImpact.Proofs.Text.Splitting
import ApiImpact.Proofs.Functions.Parameters
import ApiImpact.Proofs.Assigned.Written
import ApiImpact.Proofs.Assigned.Exported
import ApiImpact.Proofs.Assigned.Extracted
import ApiImpact.Proofs.Assigned.Keys
import ApiImpact.Proofs.Path.Location
import ApiImpact.Proofs.Change.Inclusion
import ApiImpact.Proofs.Script.Shown
import ApiImpact.Proofs.Script.Called
import ApiImpact.Proofs.Classes.Patterns
import ApiImpact.Proofs.Classes.Written
import ApiImpact.Proofs.Classes.Members
import ApiImpact.Proofs.Classes.Layout
import ApiImpact.Text.Fingerprint
