import ClassScript.Call.Arguments
import ClassScript.Call.Arity
import ClassScript.Cbor.Read
import ClassScript.Cbor.Write
import ClassScript.Command.Flags
import ClassScript.Command.Repl
import ClassScript.Command.Run
import ClassScript.Decimal.Remainder
import ClassScript.Decimal.Shortest
import ClassScript.Decimal.Text
import ClassScript.Diagnostic
import ClassScript.Editor.Completion
import ClassScript.Editor.Hover
import ClassScript.Editor.Names
import ClassScript.Editor.Position
import ClassScript.Editor.Server
import ClassScript.Editor.Word
import ClassScript.Editor.Worker
import ClassScript.Files.Host
import ClassScript.Files.Path
import ClassScript.Files.Tree
import ClassScript.Hierarchy
import ClassScript.Machine.Call
import ClassScript.Machine.Engine
import ClassScript.Machine.Environment
import ClassScript.Machine.Error
import ClassScript.Machine.Evaluate
import ClassScript.Machine.Exec
import ClassScript.Machine.Native.Number
import ClassScript.Machine.Native.Operation
import ClassScript.Machine.Run
import ClassScript.Machine.Sequence
import ClassScript.Machine.Store
import ClassScript.Machine.Value
import ClassScript.Main
import ClassScript.Manifest
import ClassScript.Native.Basic
import ClassScript.Parse.Basic
import ClassScript.Parse.Grammar
import ClassScript.Proofs.Analysis
import ClassScript.Proofs.Call.Filled
import ClassScript.Proofs.Call.Slots
import ClassScript.Proofs.Cbor.Values
import ClassScript.Proofs.Editor.Completions
import ClassScript.Proofs.Editor.Freshness
import ClassScript.Proofs.Editor.Lines
import ClassScript.Proofs.Editor.Problems
import ClassScript.Proofs.Editor.References
import ClassScript.Proofs.Editor.Words
import ClassScript.Proofs.Graphs
import ClassScript.Proofs.Hierarchy
import ClassScript.Proofs.Hierarchy.Height
import ClassScript.Proofs.Hierarchy.Paths
import ClassScript.Proofs.Hierarchy.Reordered
import ClassScript.Proofs.Machine.Agreement
import ClassScript.Proofs.Machine.Answers
import ClassScript.Proofs.Machine.Blocks
import ClassScript.Proofs.Machine.Bookkeeping
import ClassScript.Proofs.Machine.Calls
import ClassScript.Proofs.Machine.Chain
import ClassScript.Proofs.Machine.Changes
import ClassScript.Proofs.Machine.Code
import ClassScript.Proofs.Machine.Comparing
import ClassScript.Proofs.Machine.Contents
import ClassScript.Proofs.Machine.Enclosed
import ClassScript.Proofs.Machine.Execution
import ClassScript.Proofs.Machine.Founded
import ClassScript.Proofs.Machine.Founding
import ClassScript.Proofs.Machine.Grounded
import ClassScript.Proofs.Machine.Growth
import ClassScript.Proofs.Machine.Handed
import ClassScript.Proofs.Machine.History
import ClassScript.Proofs.Machine.Homes
import ClassScript.Proofs.Machine.Integers
import ClassScript.Proofs.Machine.Iterating
import ClassScript.Proofs.Machine.Keys
import ClassScript.Proofs.Machine.Lexical
import ClassScript.Proofs.Machine.Meets
import ClassScript.Proofs.Machine.Natives
import ClassScript.Proofs.Machine.Rebinding
import ClassScript.Proofs.Machine.Regime
import ClassScript.Proofs.Machine.Relocated
import ClassScript.Proofs.Machine.Rendering
import ClassScript.Proofs.Machine.Replaying
import ClassScript.Proofs.Machine.Restores
import ClassScript.Proofs.Machine.Sheltered
import ClassScript.Proofs.Machine.Sheltering
import ClassScript.Proofs.Machine.Sound
import ClassScript.Proofs.Machine.Tracks
import ClassScript.Proofs.Machine.Turns
import ClassScript.Proofs.Machine.Watch
import ClassScript.Proofs.Machine.Windows
import ClassScript.Proofs.Parse.Accepts
import ClassScript.Proofs.Parse.Complete.Blocks
import ClassScript.Proofs.Parse.Complete.Expressions
import ClassScript.Proofs.Parse.Complete.Programs
import ClassScript.Proofs.Parse.Faithful.Expressions
import ClassScript.Proofs.Parse.Faithful.Programs
import ClassScript.Proofs.Parse.Formed
import ClassScript.Proofs.Parse.Identifiers
import ClassScript.Proofs.Parse.Keeps
import ClassScript.Proofs.Parse.Opens
import ClassScript.Proofs.Parse.Ordered
import ClassScript.Proofs.Parse.Parts
import ClassScript.Proofs.Parse.Progress.Basic
import ClassScript.Proofs.Parse.Progress.Expressions
import ClassScript.Proofs.Parse.Progress.Loops
import ClassScript.Proofs.Parse.Progress.Programs
import ClassScript.Proofs.Parse.Progress.Supers
import ClassScript.Proofs.Parse.Reads
import ClassScript.Proofs.Parse.Spelling
import ClassScript.Proofs.Parse.Uncalled
import ClassScript.Proofs.Parse.Unfinished.Basic
import ClassScript.Proofs.Parse.Unfinished.Expressions
import ClassScript.Proofs.Parse.Unfinished.Programs
import ClassScript.Proofs.Parse.Worded
import ClassScript.Proofs.Parse.Yields
import ClassScript.Proofs.Report
import ClassScript.Proofs.Scope.Distinct
import ClassScript.Proofs.Scope.Independent
import ClassScript.Proofs.Scope.Parts
import ClassScript.Proofs.Scope.Reports
import ClassScript.Proofs.Scope.Resolves
import ClassScript.Proofs.Scope.Sites
import ClassScript.Proofs.Scope.Uses
import ClassScript.Proofs.Session
import ClassScript.Proofs.Superclasses
import ClassScript.Proofs.Text.Bytes
import ClassScript.Proofs.Token.Cuts
import ClassScript.Proofs.Token.Layout
import ClassScript.Proofs.Token.Lexemes
import ClassScript.Proofs.Token.Places
import ClassScript.Proofs.Token.Strings
import ClassScript.Proofs.Typing.Blames
import ClassScript.Proofs.Typing.Bodies
import ClassScript.Proofs.Typing.Closed
import ClassScript.Proofs.Typing.Closes
import ClassScript.Proofs.Typing.Coherence
import ClassScript.Proofs.Typing.Comparison
import ClassScript.Proofs.Typing.Edits
import ClassScript.Proofs.Typing.Follows
import ClassScript.Proofs.Typing.Genuine
import ClassScript.Proofs.Typing.Grounded
import ClassScript.Proofs.Typing.Lawful
import ClassScript.Proofs.Typing.Laws
import ClassScript.Proofs.Typing.Matching
import ClassScript.Proofs.Typing.Members
import ClassScript.Proofs.Typing.Mirror
import ClassScript.Proofs.Typing.Mirrors
import ClassScript.Proofs.Typing.Names
import ClassScript.Proofs.Typing.NativeTypes
import ClassScript.Proofs.Typing.Observes
import ClassScript.Proofs.Typing.Operators
import ClassScript.Proofs.Typing.Order
import ClassScript.Proofs.Typing.Overlooks
import ClassScript.Proofs.Typing.Predictions
import ClassScript.Proofs.Typing.Recorded
import ClassScript.Proofs.Typing.Renaming
import ClassScript.Proofs.Typing.Results
import ClassScript.Proofs.Typing.Rollback
import ClassScript.Proofs.Typing.Settling
import ClassScript.Proofs.Typing.Shadowed
import ClassScript.Proofs.Typing.Surrounded
import ClassScript.Proofs.Typing.Surroundings
import ClassScript.Proofs.Typing.Texts
import ClassScript.Proofs.Typing.Widening
import ClassScript.Report
import ClassScript.Scope.Origin
import ClassScript.Scope.Resolve
import ClassScript.Session
import ClassScript.Syntax.Basic
import ClassScript.Syntax.Nodes
import ClassScript.Syntax.Printer
import ClassScript.Text.Case
import ClassScript.Text.Characters
import ClassScript.Text.Glyph
import ClassScript.Text.Letter
import ClassScript.Text.Lines
import ClassScript.Text.Printable
import ClassScript.Text.Quoted
import ClassScript.Text.Split
import ClassScript.Token.Basic
import ClassScript.Token.Scan
import ClassScript.Toml.Document
import ClassScript.Toml.Entries
import ClassScript.Toml.Parse
import ClassScript.Toml.Quoted
import ClassScript.Toml.Scalar
import ClassScript.Toml.Value
import ClassScript.Typing.Check
import ClassScript.Typing.Member
import ClassScript.Typing.Relation
import ClassScript.Typing.Type
