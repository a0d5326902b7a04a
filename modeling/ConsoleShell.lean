import ConsoleShell.Builtin.Aliases
import ConsoleShell.Builtin.All
import ConsoleShell.Builtin.Ask
import ConsoleShell.Builtin.Console
import ConsoleShell.Builtin.Dice
import ConsoleShell.Builtin.Echo
import ConsoleShell.Builtin.Format
import ConsoleShell.Builtin.Help
import ConsoleShell.Builtin.JobControl
import ConsoleShell.Builtin.Probe
import ConsoleShell.Builtin.Sort
import ConsoleShell.Builtin.Time
import ConsoleShell.Builtin.VariableTables
import ConsoleShell.Command.Basic
import ConsoleShell.Command.Registry
import ConsoleShell.CommandLine.Dialogue
import ConsoleShell.CommandLine.Errand
import ConsoleShell.CommandLine.Options
import ConsoleShell.CommandLine.Start
import ConsoleShell.Config.Basic
import ConsoleShell.Config.File
import ConsoleShell.Config.Path
import ConsoleShell.Config.Prompt
import ConsoleShell.Dict
import ConsoleShell.Failure
import ConsoleShell.Flag.Arguments
import ConsoleShell.Flag.Basic
import ConsoleShell.Flag.Schema
import ConsoleShell.Flag.Usage
import ConsoleShell.Id
import ConsoleShell.Job
import ConsoleShell.Main
import ConsoleShell.Markup
import ConsoleShell.Number.Decimal
import ConsoleShell.Number.Double
import ConsoleShell.Number.Duration
import ConsoleShell.Number.Shortest
import ConsoleShell.Number.Whole
import ConsoleShell.Output.Buffer
import ConsoleShell.Output.Color
import ConsoleShell.Output.Console
import ConsoleShell.Output.Line
import ConsoleShell.Output.Style
import ConsoleShell.Output.Terminal
import ConsoleShell.Program
import ConsoleShell.Quoting
import ConsoleShell.Request
import ConsoleShell.Scope
import ConsoleShell.Shell.Action
import ConsoleShell.Shell.Basic
import ConsoleShell.Shell.Control
import ConsoleShell.Shell.Dispatch
import ConsoleShell.Shell.Perform
import ConsoleShell.Shell.Schedule
import ConsoleShell.Shell.Task
import ConsoleShell.Signal
import ConsoleShell.Text.Alphanumeric
import ConsoleShell.Text.Basic
import ConsoleShell.Text.Blank
import ConsoleShell.Text.LowerCase
import ConsoleShell.Token
import ConsoleShell.Toml.Document
import ConsoleShell.Toml.Moment
import ConsoleShell.Toml.Quoted
import ConsoleShell.Toml.Scalar
import ConsoleShell.Toml.Value
import ConsoleShell.Variable.Name
import ConsoleShell.Variable.Reference
import ConsoleShell.Variable.Store
import ConsoleShell.Proofs.Expansion
import ConsoleShell.Proofs.Entity
import ConsoleShell.Proofs.Rendering
import ConsoleShell.Proofs.Printing
import ConsoleShell.Proofs.Arguments
import ConsoleShell.Proofs.Frame
import ConsoleShell.Proofs.Reachable
import ConsoleShell.Proofs.Captured
import ConsoleShell.Proofs.Sound
import ConsoleShell.Proofs.MarkupSafety
import ConsoleShell.Proofs.QuotedEcho
import ConsoleShell.Proofs.ScopeSafety
import ConsoleShell.Proofs.Cascade
import ConsoleShell.Proofs.Registration
import ConsoleShell.Proofs.CallbackRuns
import ConsoleShell.Proofs.JobDeeds
import ConsoleShell.Proofs.JobHistory
import ConsoleShell.Proofs.JobWaiting
import ConsoleShell.Proofs.Foreground
import ConsoleShell.Proofs.Actions
import ConsoleShell.Proofs.FiredScopes
import ConsoleShell.Proofs.LineEnds
import ConsoleShell.Proofs.Refusal
import ConsoleShell.Proofs.Continuations
import ConsoleShell.Proofs.JobEnds
import ConsoleShell.Proofs.LongSpans
import ConsoleShell.Proofs.Crashes
import ConsoleShell.Proofs.Cancellation
import ConsoleShell.Proofs.LineKeeping
import ConsoleShell.Proofs.ConsoleFeed
import ConsoleShell.Proofs.FlagSchema
import ConsoleShell.Proofs.FlagGrammar
import ConsoleShell.Proofs.FlagOutcome
import ConsoleShell.Proofs.FlagParsing
import ConsoleShell.Proofs.CanonicalLine
import ConsoleShell.Proofs.DeclaredCommands
import ConsoleShell.Proofs.WordGrammar
import ConsoleShell.Proofs.JoinedLines
import ConsoleShell.Proofs.CutLines
import ConsoleShell.Proofs.Confinement
import ConsoleShell.Proofs.TaskTurns
import ConsoleShell.Proofs.OwnRequests
import ConsoleShell.Proofs.Offstage
import ConsoleShell.Proofs.AlikeTurns
import ConsoleShell.Proofs.Isolation
import ConsoleShell.Proofs.MarkedLines
import ConsoleShell.Proofs.PlainRuns
import ConsoleShell.Proofs.JobsAgree
import ConsoleShell.Proofs.Spellings
import ConsoleShell.Proofs.AliasChains
import ConsoleShell.Proofs.Heedful
import ConsoleShell.Proofs.LineWaiting
import ConsoleShell.Proofs.Histories
import ConsoleShell.Proofs.TypedRuns
import ConsoleShell.Proofs.TypedLines
import ConsoleShell.Proofs.ReferenceBounds
import ConsoleShell.Proofs.Piecewise
import ConsoleShell.Proofs.EscapedReferences
import ConsoleShell.Proofs.Assignments
import ConsoleShell.Proofs.SessionTables
import ConsoleShell.Proofs.VariableNames
import ConsoleShell.Proofs.EscapeGrammar
import ConsoleShell.Proofs.StyledLines
import ConsoleShell.Proofs.LegibleMarkup
import ConsoleShell.Proofs.CanonicalRendering
import ConsoleShell.Proofs.Selections
import ConsoleShell.Proofs.ErrorLines
import ConsoleShell.Proofs.EscapedText
import ConsoleShell.Proofs.EscapedRendering
import ConsoleShell.Proofs.SortedLines
import ConsoleShell.Proofs.TerminalText
import ConsoleShell.Proofs.GroupHistory
import ConsoleShell.Proofs.Screen
import ConsoleShell.Proofs.Redrawing
import ConsoleShell.Proofs.CalledLines
import ConsoleShell.Proofs.ShownOrder
import ConsoleShell.Proofs.Citations
import ConsoleShell.Proofs.Complaints
import ConsoleShell.Proofs.Rejections
import ConsoleShell.Proofs.ClearAnswers
import ConsoleShell.Proofs.ConsoleActs
import ConsoleShell.Proofs.FetchedJobs
import ConsoleShell.Proofs.QuotedWords
import ConsoleShell.Proofs.AliasListing
import ConsoleShell.Proofs.FilledPrompts
import ConsoleShell.Proofs.UnknownParameters
import ConsoleShell.Proofs.AbandonedRequests
import ConsoleShell.Proofs.ClosedTurns
import ConsoleShell.Proofs.ClosedSessions
