import CodeIndex.Child.Host
import CodeIndex.Child.Locate
import CodeIndex.Child.Run
import CodeIndex.Child.Status
import CodeIndex.Child.Wait
import CodeIndex.CommandLine.Basic
import CodeIndex.CommandLine.Completion
import CodeIndex.CommandLine.Help
import CodeIndex.CommandLine.Misuse
import CodeIndex.CommandLine.Reader
import CodeIndex.Decimal.Binary64
import CodeIndex.Decimal.Round
import CodeIndex.Export
import CodeIndex.FileSystem.Basic
import CodeIndex.FileSystem.Lookup
import CodeIndex.FileSystem.Snapshot
import CodeIndex.FileSystem.Update
import CodeIndex.Glob.Basic
import CodeIndex.Glob.Parser
import CodeIndex.Indexing
import CodeIndex.IoError
import CodeIndex.Job.Event
import CodeIndex.Job.Request
import CodeIndex.Job.Run
import CodeIndex.Job.Stage
import CodeIndex.Listing
import CodeIndex.Main
import CodeIndex.Path
import CodeIndex.Program
import CodeIndex.Proofs.Child.Wait
import CodeIndex.Proofs.Effect
import CodeIndex.Proofs.Export.Guard
import CodeIndex.Proofs.FileSystem.Descent
import CodeIndex.Proofs.FileSystem.Directories
import CodeIndex.Proofs.FileSystem.Finds
import CodeIndex.Proofs.FileSystem.Passing
import CodeIndex.Proofs.FileSystem.Reach
import CodeIndex.Proofs.FileSystem.Removing
import CodeIndex.Proofs.FileSystem.Standing
import CodeIndex.Proofs.FileSystem.Straight
import CodeIndex.Proofs.FileSystem.Ways
import CodeIndex.Proofs.FileSystem.WellFormed
import CodeIndex.Proofs.FileSystem.Writing
import CodeIndex.Proofs.Job.Apart
import CodeIndex.Proofs.Job.Ends
import CodeIndex.Proofs.Job.Passage
import CodeIndex.Proofs.Job.Source
import CodeIndex.Proofs.Job.Steps
import CodeIndex.Proofs.Listing
import CodeIndex.Proofs.Path.Absolute
import CodeIndex.Proofs.Path.Ancestors
import CodeIndex.Proofs.Path.Names
import CodeIndex.Proofs.WorkingCopy.Arrival
import CodeIndex.Proofs.WorkingCopy.Confined
import CodeIndex.Proofs.WorkingCopy.Destination
import CodeIndex.Proofs.WorkingCopy.Fidelity
import CodeIndex.Proofs.WorkingCopy.Fill
import CodeIndex.Proofs.WorkingCopy.Place
import CodeIndex.Proofs.WorkingCopy.Steps
import CodeIndex.Report.Console
import CodeIndex.Report.Json
import CodeIndex.Report.Summary
import CodeIndex.Sandbox
import CodeIndex.Settings.Basic
import CodeIndex.Settings.Decode
import CodeIndex.Settings.Error
import CodeIndex.Settings.KeyPath
import CodeIndex.Settings.Layers
import CodeIndex.Settings.Load
import CodeIndex.Shell.Arithmetic
import CodeIndex.Shell.Behaviour
import CodeIndex.Shell.Builtin
import CodeIndex.Shell.Eval
import CodeIndex.Shell.Expansion
import CodeIndex.Shell.Filter
import CodeIndex.Shell.Format
import CodeIndex.Shell.Machine
import CodeIndex.Shell.Parser
import CodeIndex.Shell.Syntax
import CodeIndex.Shell.Token
import CodeIndex.Shell.Utility
import CodeIndex.Size
import CodeIndex.Text.Blank
import CodeIndex.Text.Integer
import CodeIndex.Text.Quoted
import CodeIndex.Text.Similarity
import CodeIndex.Text.Utf8
import CodeIndex.Toml.Basic
import CodeIndex.Toml.Draft
import CodeIndex.Toml.Moment
import CodeIndex.Toml.Printer
import CodeIndex.Toml.Quoted
import CodeIndex.Toml.Reader
import CodeIndex.Toml.Scalar
import CodeIndex.Tool.Basic
import CodeIndex.Tool.Inventory
import CodeIndex.Tool.Role
import CodeIndex.Tool.Search
import CodeIndex.Walk
import CodeIndex.WorkingCopy.Basic
import CodeIndex.WorkingCopy.Destination
import CodeIndex.WorkingCopy.Error
import CodeIndex.WorkingCopy.Fill
import CodeIndex.Proofs.WorkingCopy.Standing
import CodeIndex.Proofs.Job.Cleanup
import CodeIndex.Proofs.WorkingCopy.Disposal
import CodeIndex.Proofs.Export.Outcome
import CodeIndex.Proofs.Export.Written
import CodeIndex.Proofs.Job.Account
import CodeIndex.Proofs.Job.Partial
import CodeIndex.Proofs.Indexing
import CodeIndex.Proofs.Indexing.Extension
import CodeIndex.Proofs.Indexing.Search
import CodeIndex.Proofs.Job.Blank
import CodeIndex.Proofs.Job.Untouched
import CodeIndex.Proofs.Program
import CodeIndex.Proofs.Job.History
import CodeIndex.Proofs.Job.Protocol
import CodeIndex.Proofs.Settings.Leaf
import CodeIndex.Proofs.Settings.Given
import CodeIndex.Proofs.Settings.Layered
import CodeIndex.Proofs.Settings.Printed
import CodeIndex.Proofs.Text.Utf8
import CodeIndex.Proofs.Toml.Quoted
import CodeIndex.Proofs.Toml.Written
import CodeIndex.Proofs.Toml.Document
import CodeIndex.Proofs.Tool
import CodeIndex.Proofs.Walk.Outcome
import CodeIndex.Proofs.Walk.Tree
import CodeIndex.Proofs.Report.Json
import CodeIndex.Proofs.Output
import CodeIndex.Proofs.Report.Quiet
import CodeIndex.Proofs.Settings.Loading
import CodeIndex.Proofs.Settings.Decoded
import CodeIndex.Proofs.Settings.Verbatim
import CodeIndex.Proofs.Text.Integer
import CodeIndex.Proofs.CommandLine.Spelling
import CodeIndex.Proofs.CommandLine.RoundTrip
import CodeIndex.Proofs.Decimal.Round
import CodeIndex.Proofs.Size
