import ViewLint.Balance
import ViewLint.CallSite
import ViewLint.CheckRun
import ViewLint.CommandLine
import ViewLint.Completion
import ViewLint.Edit
import ViewLint.Finder
import ViewLint.Hover
import ViewLint.Ignore
import ViewLint.Json.Fit
import ViewLint.Json.Parse
import ViewLint.Json.Print
import ViewLint.Main
import ViewLint.Selector
import ViewLint.Server.Answer
import ViewLint.Server.Basic
import ViewLint.Server.Call
import ViewLint.Server.Journal
import ViewLint.Server.Log
import ViewLint.Server.Rpc
import ViewLint.Server.Session
import ViewLint.Settings
import ViewLint.Text.Lower
import ViewLint.Timestamp
import ViewLint.Uri
import ViewLint.Settings.Hcl.Number
import ViewLint.Proofs.Balance.Stacks
import ViewLint.Proofs.Balance.Clean
import ViewLint.Proofs.Server.Freshness
import ViewLint.Proofs.Text.Lines
import ViewLint.Proofs.Text.Runes
import ViewLint.Proofs.TextSync
import ViewLint.Proofs.Comment.Segmentation
import ViewLint.Proofs.Comment.Exact
import ViewLint.Proofs.Text.Places
import ViewLint.Proofs.Text.Occurrence
import ViewLint.Proofs.Event.Pattern
import ViewLint.Proofs.Event.Order
import ViewLint.Proofs.Event.Tags
import ViewLint.Proofs.Balance.LineLengths
import ViewLint.Proofs.Comment.Body
import ViewLint.Proofs.Comment.Padding
import ViewLint.Proofs.Event.Padding
import ViewLint.Proofs.LineEndings
import ViewLint.Proofs.Bracket.Matches
import ViewLint.Proofs.Outline.Basic
import ViewLint.Proofs.Outline.Events
import ViewLint.Proofs.Outline.Balance
import ViewLint.Proofs.Event.Markers
import ViewLint.Proofs.Server.Mirror
import ViewLint.Proofs.Server.Closing
import ViewLint.Proofs.Path.Clean
import ViewLint.Proofs.Uri.RoundTrip
import ViewLint.Proofs.CheckRun.Schedule
import ViewLint.Proofs.CheckRun.Editor
import ViewLint.Proofs.Component.Listed
import ViewLint.Proofs.Finder.Selection
import ViewLint.Proofs.Balance.Fences
import ViewLint.Proofs.Balance.Numbering
import ViewLint.Proofs.Balance.Account
import ViewLint.Proofs.Balance.Conservation
import ViewLint.Proofs.Balance.Families
import ViewLint.Proofs.Text.Columns
import ViewLint.Proofs.Balance.Ranges
import ViewLint.Proofs.Balance.Reports
import ViewLint.Proofs.Balance.Window
import ViewLint.Proofs.Event.Overlap
import ViewLint.Proofs.Text.Units
import ViewLint.Proofs.Text.Offsets
import ViewLint.Proofs.Edit.Splice
import ViewLint.Proofs.Hover.UnderCursor
import ViewLint.Proofs.Component.Contained
import ViewLint.Proofs.Component.Spelling
import ViewLint.Proofs.Text.WordAt
import ViewLint.Proofs.Completion.Replacement
import ViewLint.Proofs.Folding
import ViewLint.Proofs.Comment.Live
import ViewLint.Proofs.Comment.Joined
import ViewLint.Proofs.Comment.Twice
import ViewLint.Proofs.Finder.Reached
import ViewLint.Proofs.Finder.Arguments
import ViewLint.Proofs.Finder.Spelling
