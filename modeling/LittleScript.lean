import LittleScript.Command.Builtin
import LittleScript.Command.Control
import LittleScript.Command.Evaluation
import LittleScript.Command.Files
import LittleScript.Command.Lists
import LittleScript.Command.Reflection
import LittleScript.Command.Strings
import LittleScript.Command.Variables
import LittleScript.Compression.Bits
import LittleScript.Compression.Checksum
import LittleScript.Compression.Defect
import LittleScript.Compression.Gzip
import LittleScript.Compression.Inflate
import LittleScript.Compression.Window
import LittleScript.Compression.Zstd
import LittleScript.Compression.Zstd.BackwardBits
import LittleScript.Compression.Zstd.BitRegister
import LittleScript.Compression.Zstd.ContentHash
import LittleScript.Compression.Zstd.LiteralCode
import LittleScript.Compression.Zstd.Literals
import LittleScript.Compression.Zstd.Sequences
import LittleScript.Compression.Zstd.ShareReader
import LittleScript.Compression.Zstd.StateTable
import LittleScript.Console
import LittleScript.Console.Flag
import LittleScript.Console.LogLine
import LittleScript.Expression
import LittleScript.Fault
import LittleScript.ListText
import LittleScript.Machine.Evaluation
import LittleScript.Machine.State
import LittleScript.Machine.Variables
import LittleScript.Machine.World
import LittleScript.Main
import LittleScript.Number
import LittleScript.Number.Binary64
import LittleScript.Number.Integer
import LittleScript.Number.Literal
import LittleScript.Number.Prefixed
import LittleScript.Number.Shortest
import LittleScript.Proofs.AdjoiningParts
import LittleScript.Proofs.Assembled
import LittleScript.Proofs.AssembledCommands
import LittleScript.Proofs.Blank
import LittleScript.Proofs.BlankStretch
import LittleScript.Proofs.CallerResults
import LittleScript.Proofs.Cancellation
import LittleScript.Proofs.Characters
import LittleScript.Proofs.CheckedScripts
import LittleScript.Proofs.CommandHistory
import LittleScript.Proofs.CommandTables
import LittleScript.Proofs.Commands
import LittleScript.Proofs.CommentEnds
import LittleScript.Proofs.Comparison
import LittleScript.Proofs.Completion
import LittleScript.Proofs.Composed
import LittleScript.Proofs.ComposedCommands
import LittleScript.Proofs.ComposedVariables
import LittleScript.Proofs.ControlBodies
import LittleScript.Proofs.ControlState
import LittleScript.Proofs.Counters
import LittleScript.Proofs.Dispatching
import LittleScript.Proofs.DownAndUp
import LittleScript.Proofs.Enclaves
import LittleScript.Proofs.Endurance
import LittleScript.Proofs.ErrorOrigins
import LittleScript.Proofs.ErrorPlaces
import LittleScript.Proofs.Evaluation
import LittleScript.Proofs.ExitStatus
import LittleScript.Proofs.ExpressionReading
import LittleScript.Proofs.ExpressionText
import LittleScript.Proofs.ExpressionTree
import LittleScript.Proofs.FailedLists
import LittleScript.Proofs.FileAccess
import LittleScript.Proofs.FirstError
import LittleScript.Proofs.FlawPlaces
import LittleScript.Proofs.FrameTree
import LittleScript.Proofs.GoingDown
import LittleScript.Proofs.GroupEnds
import LittleScript.Proofs.GuardedAccess
import LittleScript.Proofs.GuardedEvaluation
import LittleScript.Proofs.GuardedExpression
import LittleScript.Proofs.GuardedReading
import LittleScript.Proofs.GuardedScanning
import LittleScript.Proofs.Heedless
import LittleScript.Proofs.HostFree
import LittleScript.Proofs.HostSubstitution
import LittleScript.Proofs.HostedFrames
import LittleScript.Proofs.HostedRuns
import LittleScript.Proofs.InputChunks
import LittleScript.Proofs.IntegerText
import LittleScript.Proofs.Isolation
import LittleScript.Proofs.Itineraries
import LittleScript.Proofs.JailCommands
import LittleScript.Proofs.JailRecursion
import LittleScript.Proofs.JoinedScripts
import LittleScript.Proofs.LastCommand
import LittleScript.Proofs.Lasting
import LittleScript.Proofs.ListAppend
import LittleScript.Proofs.ListCommands
import LittleScript.Proofs.ListRoundTrip
import LittleScript.Proofs.LongIntegers
import LittleScript.Proofs.LongerCommands
import LittleScript.Proofs.LongerText
import LittleScript.Proofs.Mediation
import LittleScript.Proofs.Moves
import LittleScript.Proofs.NestedCalls
import LittleScript.Proofs.NestedErrors
import LittleScript.Proofs.NestedText
import LittleScript.Proofs.NestingBound
import LittleScript.Proofs.Outline
import LittleScript.Proofs.OutlineReading
import LittleScript.Proofs.ParameterBinding
import LittleScript.Proofs.PendingResult
import LittleScript.Proofs.PlacedReading
import LittleScript.Proofs.Progress
import LittleScript.Proofs.Prospect
import LittleScript.Proofs.QuoteEnds
import LittleScript.Proofs.QuotedWords
import LittleScript.Proofs.Registrations
import LittleScript.Proofs.Replacement
import LittleScript.Proofs.ReturnStatements
import LittleScript.Proofs.RobustExpressions
import LittleScript.Proofs.ScreenView
import LittleScript.Proofs.SealedJail
import LittleScript.Proofs.Serving
import LittleScript.Proofs.SplitPieces
import LittleScript.Proofs.SubstitutedValues
import LittleScript.Proofs.SystemCommands
import LittleScript.Proofs.Tables
import LittleScript.Proofs.Termination
import LittleScript.Proofs.TrailingBlank
import LittleScript.Proofs.Trails
import LittleScript.Proofs.TwoDepths
import LittleScript.Proofs.UniformActions
import LittleScript.Proofs.UniformCommands
import LittleScript.Proofs.UniformEvaluation
import LittleScript.Proofs.UniformReading
import LittleScript.Proofs.UntilMarked
import LittleScript.Proofs.UnusedNames
import LittleScript.Proofs.VariableReading
import LittleScript.Proofs.Veiled
import LittleScript.Proofs.WatchedResults
import LittleScript.Proofs.WordParts
import LittleScript.Proofs.Words
import LittleScript.Repl.Chunk
import LittleScript.Repl.Conversation
import LittleScript.Repl.History
import LittleScript.Repl.InputField
import LittleScript.Repl.InputLine
import LittleScript.Repl.Layout
import LittleScript.Repl.Screen
import LittleScript.Repl.View
import LittleScript.Script.Dispatch
import LittleScript.Script.Evaluate
import LittleScript.Script.Host
import LittleScript.Script.Outermost
import LittleScript.Script.Scope
import LittleScript.Script.Words
import LittleScript.Session
import LittleScript.Session.HostCommand
import LittleScript.Session.Recorder
import LittleScript.Source.Blank
import LittleScript.Source.Checker
import LittleScript.Source.Flaw
import LittleScript.Source.Position
import LittleScript.Storage
import LittleScript.Storage.FileSystem
import LittleScript.Storage.Listing
import LittleScript.Table
import LittleScript.Text
import LittleScript.Text.BreakClass
import LittleScript.Text.Builder
import LittleScript.Text.Cluster
import LittleScript.Text.Columns
import LittleScript.Text.Escape
import LittleScript.Text.Printable
import LittleScript.Text.Quoted
import LittleScript.Text.Rune
import LittleScript.Text.Trim
import LittleScript.Text.Width
