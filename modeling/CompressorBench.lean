import CompressorBench.Base64
import CompressorBench.Bench
import CompressorBench.Case
import CompressorBench.Child
import CompressorBench.CommandLine.Options
import CompressorBench.CommandLine.Run
import CompressorBench.CommandLine.Usage
import CompressorBench.CommandLine.Values
import CompressorBench.Decimal.Binary64
import CompressorBench.Decimal.Fixed
import CompressorBench.Decimal.Literal
import CompressorBench.Decimal.Power
import CompressorBench.Decimal.Rounding
import CompressorBench.Decimal.Shortest
import CompressorBench.Discovery
import CompressorBench.Duration
import CompressorBench.Evaluation
import CompressorBench.Failure
import CompressorBench.FileTree.Basic
import CompressorBench.FileTree.Entry
import CompressorBench.FileTree.Node
import CompressorBench.FileTree.Operations
import CompressorBench.FileTree.OsError
import CompressorBench.FileTree.Pathname
import CompressorBench.FileTree.Proper
import CompressorBench.FileTree.Resolve
import CompressorBench.FileTree.Standpoint
import CompressorBench.Files
import CompressorBench.Glob.Match
import CompressorBench.Glob.Pattern
import CompressorBench.Invocation
import CompressorBench.Json.Basic
import CompressorBench.Json.Members
import CompressorBench.Json.Printer
import CompressorBench.Json.Reader
import CompressorBench.Log
import CompressorBench.Main
import CompressorBench.Pool
import CompressorBench.Proofs.Base64.Grammar
import CompressorBench.Proofs.Base64.Symbols
import CompressorBench.Proofs.Bench.Isolation
import CompressorBench.Proofs.Bench.Lines
import CompressorBench.Proofs.Bench.Machines
import CompressorBench.Proofs.Bench.Observation
import CompressorBench.Proofs.Bench.Repetition
import CompressorBench.Proofs.Bench.Report
import CompressorBench.Proofs.Child.Bytes
import CompressorBench.Proofs.Child.Input
import CompressorBench.Proofs.CommandLine.Arguments
import CompressorBench.Proofs.CommandLine.ExitStatus
import CompressorBench.Proofs.CommandLine.Given
import CompressorBench.Proofs.CommandLine.Jobs
import CompressorBench.Proofs.CommandLine.TimeLimit
import CompressorBench.Proofs.Decimal.Arithmetic
import CompressorBench.Proofs.Decimal.Bits
import CompressorBench.Proofs.Decimal.Fixed
import CompressorBench.Proofs.Decimal.Nearest
import CompressorBench.Proofs.Decimal.Order
import CompressorBench.Proofs.Decimal.Scientific
import CompressorBench.Proofs.Decimal.Shortest
import CompressorBench.Proofs.Evaluation.Coherence
import CompressorBench.Proofs.Evaluation.Contents
import CompressorBench.Proofs.Evaluation.Course
import CompressorBench.Proofs.Evaluation.Echo
import CompressorBench.Proofs.Evaluation.Points
import CompressorBench.Proofs.Evaluation.Ranking
import CompressorBench.Proofs.Evaluation.Times
import CompressorBench.Proofs.Files.Effects
import CompressorBench.Proofs.Files.Growth
import CompressorBench.Proofs.Files.Listing
import CompressorBench.Proofs.Files.Lookup
import CompressorBench.Proofs.Files.Matching
import CompressorBench.Proofs.Files.Parents
import CompressorBench.Proofs.Files.Ways
import CompressorBench.Proofs.Glob.Cuts
import CompressorBench.Proofs.Glob.Hidden
import CompressorBench.Proofs.Glob.Search
import CompressorBench.Proofs.Json.Number
import CompressorBench.Proofs.Json.RoundTrip
import CompressorBench.Proofs.Pool.Accounts
import CompressorBench.Proofs.Pool.Panics
import CompressorBench.Proofs.Pool.Permits
import CompressorBench.Proofs.Pool.Runs
import CompressorBench.Proofs.Pool.Times
import CompressorBench.Proofs.Report.Breakdown
import CompressorBench.Proofs.Report.Characters
import CompressorBench.Proofs.Report.Colors
import CompressorBench.Proofs.Report.Columns
import CompressorBench.Proofs.Report.Document
import CompressorBench.Proofs.Report.Line
import CompressorBench.Proofs.Report.LineBreaks
import CompressorBench.Proofs.Report.Totals
import CompressorBench.Proofs.Text.Utf8
import CompressorBench.Report.Document
import CompressorBench.Report.Layout
import CompressorBench.Report.Style
import CompressorBench.Report.Summary
import CompressorBench.Score
import CompressorBench.Script
import CompressorBench.Script.Reader
import CompressorBench.Text.Blank
import CompressorBench.Text.ControlSequence
import CompressorBench.Text.Literal
import CompressorBench.Text.Pad
import CompressorBench.Text.Printable
import CompressorBench.Text.Quoted
import CompressorBench.Text.Split
import CompressorBench.Text.Utf8
import CompressorBench.Utilities
import CompressorBench.Verdict
import CompressorBench.Workplace
